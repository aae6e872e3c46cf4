import Mathlib.Tactic.IntervalCases
import RSQLCipher.RegexpCode

namespace RSQLCipher.RegexpRender

open RSQLCipher.Values
open RSQLCipher.RegexpCompile
open RSQLCipher.RegexpCompile.ReCompiled
open RSQLCipher.RegexpProgram
open RSQLCipher.RegexpMeaning

section Text

def HexDigit.render (d : HexDigit) : UInt8 :=
  if (d.value : ℕ) < 10 then ('0'.toNat + d.value).toUInt8
  else ((if d.capital then 'A' else 'a').toNat + (d.value - 10)).toUInt8

/-- The letter in front of four hexadecimal digits, or of two. -/
def hexLetter (ds : List HexDigit) : UInt8 := if ds.length = 4 then byte 'u' else byte 'x'

def Literal.render : Literal → Bytes
  | .raw c => String.utf8EncodeChar c
  | .esc c => [byte '\\', byte c]
  | .hex ds => byte '\\' :: hexLetter ds :: ds.map HexDigit.render

def Member.render : Member → Bytes
  | .one l => Literal.render l
  | .range lo hi => Literal.render lo ++ byte '-' :: Literal.render hi

def Shorthand.letter : Shorthand → UInt8
  | .digit => byte 'd'
  | .notDigit => byte 'D'
  | .space => byte 's'
  | .notSpace => byte 'S'
  | .word => byte 'w'
  | .notWord => byte 'W'

def Simple.render : Simple → Bytes
  | .lit l => Literal.render l
  | .any => [byte '.']
  | .cls negated m ms => byte '[' :: ((if negated then [byte '^'] else []) ++
      (m :: ms).flatMap Member.render ++ [byte ']'])
  | .shorthand s => [byte '\\', Shorthand.letter s]
  | .boundary => [byte '\\', byte 'b']
  | .start => [byte '^']

def decimal (n : ℕ) : Bytes := (Nat.toDigits 10 n).map byte

def Quant.render : Quant → Bytes
  | .once => []
  | .star => [byte '*']
  | .plus => [byte '+']
  | .opt => [byte '?']
  | .rep m n => byte '\x7b' ::
      (decimal m ++ ((if m = n then [] else byte ',' :: decimal n) ++ [byte '\x7d']))

def eolText (eol : Bool) : Bytes := if eol then [byte '$'] else []

mutual

def renderRe : Re → Bytes
  | .str s eol => renderStr s ++ eolText eol
  | .alt r s eol => renderRe r ++ byte '|' :: (renderStr s ++ eolText eol)

def renderStr : Str → Bytes
  | .nil => []
  | .simple a q s => Simple.render a ++ (Quant.render q ++ renderStr s)
  | .group r q s => byte '(' :: (renderRe r ++ byte ')' :: (Quant.render q ++ renderStr s))

end

end Text

section Fuel

variable {p q : ReCompiled}

theorem andThen_mono {r r' : ReResult} {f f' : ReCompiled → ReResult}
    {result : Except String ReCompiled} (hr : ∀ result, r = some result → r' = some result)
    (hf : ∀ q result, f q = some result → f' q = some result)
    (h : r.andThen f = some result) : r'.andThen f' = some result := by
  cases r with
  | none => cases h
  | some first =>
    rw [hr first rfl]
    cases first with
    | error zErr => exact h
    | ok q => exact hf q result h

/-- What the compiler returns does not depend on how many steps it is given. -/
theorem subcompile_succ (fuel : ℕ) :
    (∀ p r, reSubcompileRe fuel p = some r → reSubcompileRe (fuel + 1) p = some r) ∧
    (∀ i p r, reAlternatives fuel i p = some r → reAlternatives (fuel + 1) i p = some r) ∧
    ∀ i p r, reElements fuel i p = some r → reElements (fuel + 1) i p = some r := by
  induction fuel with
  | zero =>
    refine ⟨?_, ?_, ?_⟩
    · intro p r h
      cases h
    · intro i p r h
      cases h
    · intro i p r h
      cases h
  | succ fuel ih =>
    obtain ⟨ihRe, ihAlt, ihElems⟩ := ih
    refine ⟨?_, ?_, ?_⟩
    · intro p r h
      rw [reSubcompileRe] at h ⊢
      exact andThen_mono (ihElems none p) (ihAlt _) h
    · intro i p r h
      rw [reAlternatives] at h ⊢
      dsimp only at h ⊢
      split_ifs at h ⊢
      · exact andThen_mono (ihElems none _) (fun q r => ihAlt i _ r) h
      · exact h
    · intro i p r h
      rw [reElements] at h ⊢
      dsimp only at h ⊢
      split_ifs at h ⊢
      · exact h
      · exact h
      · refine andThen_mono (ihRe _) ?_ h
        intro q r h
        split_ifs at h ⊢
        · exact h
        · exact ihElems _ _ r h
      · exact andThen_mono (fun _ h => h) (fun q r => ihElems _ q r) h

theorem subcompile_mono {fuel fuel' : ℕ} (h : fuel ≤ fuel') :
    (∀ p r, reSubcompileRe fuel p = some r → reSubcompileRe fuel' p = some r) ∧
    (∀ i p r, reAlternatives fuel i p = some r → reAlternatives fuel' i p = some r) ∧
    ∀ i p r, reElements fuel i p = some r → reElements fuel' i p = some r := by
  induction h with
  | refl => exact ⟨fun _ _ h => h, fun _ _ _ h => h, fun _ _ _ h => h⟩
  | step _ ih =>
    obtain ⟨hRe, hAlt, hElems⟩ := subcompile_succ _
    exact ⟨fun p r h => hRe p r (ih.1 p r h), fun i p r h => hAlt i p r (ih.2.1 i p r h),
      fun i p r h => hElems i p r (ih.2.2 i p r h)⟩

def Elements (i : Option ℕ) (p q : ReCompiled) : Prop :=
  ∃ fuel, reElements fuel i p = some (.ok q)

def Alternatives (i : ℕ) (p q : ReCompiled) : Prop :=
  ∃ fuel, reAlternatives fuel i p = some (.ok q)

def Subcompiles (p q : ReCompiled) : Prop := ∃ fuel, reSubcompileRe fuel p = some (.ok q)

theorem subcompiles_intro {r : ReCompiled} (hp : Elements none p q)
    (hq : Alternatives p.nState q r) : Subcompiles p r := by
  obtain ⟨f, hf⟩ := hp
  obtain ⟨g, hg⟩ := hq
  refine ⟨max f g + 1, ?_⟩
  rw [reSubcompileRe, (subcompile_mono (le_max_left f g)).2.2 _ _ _ hf]
  exact (subcompile_mono (le_max_right f g)).2.1 _ _ _ hg

/-- The steps that a text is given are enough. -/
theorem subcompile_enough (h : Subcompiles p q) {fuel : ℕ} (hfuel : 3 * p.sIn.length + 2 ≤ fuel) :
    reSubcompileRe fuel p = some (.ok q) := by
  obtain ⟨f, hf⟩ := h
  obtain ⟨r, hr⟩ := Option.ne_none_iff_exists'.mp ((subcompile_ne_none fuel).1 p hfuel)
  have hmax := (subcompile_mono (le_max_left f fuel)).1 p _ hf
  rw [(subcompile_mono (le_max_right f fuel)).1 p _ hr] at hmax
  rw [hr, hmax]

end Fuel

/-- An expression under construction, with its code and what is left of its text. -/
structure Stands (noCase : Bool) (mx : ℕ) (ops : List Instr) (z : Bytes) (p : ReCompiled) :
    Prop where
  ops : p.ops = ops
  sIn : p.sIn = z
  zErr : p.zErr = none
  noCase : p.noCase = noCase
  mxAlloc : p.mxAlloc = mx
  zInit : p.zInit = []

section Steps

variable {noCase : Bool} {mx : ℕ} {ops : List Instr} {z : Bytes} {p q r : ReCompiled}

theorem Stands.nState (h : Stands noCase mx ops z p) : p.nState = ops.length := by
  rw [ReCompiled.nState, h.ops]

theorem stands_sIn (h : Stands noCase mx ops z p) (z' : Bytes) :
    Stands noCase mx ops z' { p with sIn := z' } :=
  ⟨h.ops, rfl, h.zErr, h.noCase, h.mxAlloc, h.zInit⟩

theorem stands_advance {b : UInt8} (h : Stands noCase mx ops (b :: z) p) :
    Stands noCase mx ops z p.advance := by
  refine ⟨h.ops, ?_, h.zErr, h.noCase, h.mxAlloc, h.zInit⟩
  rw [advance, h.sIn, List.tail_cons]

theorem rePeek_eq (h : Stands noCase mx ops z p) : p.rePeek = z.headD 0 := by
  rw [rePeek, h.sIn]

theorem stands_insert (h : Stands noCase mx ops z p) (hroom : 2 * ops.length ≤ mx) (i : ℕ)
    (op : ReOp) (arg : ℤ) :
    Stands noCase mx (ops.take i ++ (op, arg) :: ops.drop i) z (p.reInsert i op arg).1 ∧
      (p.reInsert i op arg).2 = i := by
  have hlimit : ¬(p.nAlloc ≤ p.nState ∧ p.nAlloc * 2 > p.mxAlloc) := by
    rw [h.nState, h.mxAlloc]
    omega
  unfold reInsert reResize
  by_cases hfull : p.nAlloc ≤ p.nState
  · have hsmall : ¬p.nAlloc * 2 > p.mxAlloc := fun hbig => hlimit ⟨hfull, hbig⟩
    simp only [hfull, hsmall, if_true, if_false, Bool.false_eq_true, and_true]
    exact ⟨by rw [h.ops], h.sIn, h.zErr, h.noCase, h.mxAlloc, h.zInit⟩
  · simp only [hfull, if_false, Bool.false_eq_true, and_true]
    exact ⟨by rw [h.ops], h.sIn, h.zErr, h.noCase, h.mxAlloc, h.zInit⟩

theorem stands_append (h : Stands noCase mx ops z p) (hroom : 2 * ops.length ≤ mx) (op : ReOp)
    (arg : ℤ) : Stands noCase mx (ops ++ [(op, arg)]) z (p.reAppend op arg).1 ∧
      (p.reAppend op arg).2 = ops.length := by
  have hinsert := stands_insert h hroom p.nState op arg
  rw [h.nState, List.take_length, List.drop_length] at hinsert
  rw [reAppend, h.nState]
  exact hinsert

theorem stands_copy (h : Stands noCase mx ops z p) {i N : ℕ}
    (hroom : 3 * (ops.length + N) ≤ mx) :
    Stands noCase mx (ops ++ (ops.drop i).take N) z (p.reCopy i N) := by
  have hlimit : ¬(p.nState + N ≥ p.nAlloc ∧ p.nAlloc * 2 + N > p.mxAlloc) := by
    rw [h.nState, h.mxAlloc]
    omega
  unfold reCopy reResize
  by_cases hfull : p.nState + N ≥ p.nAlloc
  · have hsmall : ¬p.nAlloc * 2 + N > p.mxAlloc := fun hbig => hlimit ⟨hfull, hbig⟩
    simp only [hfull, hsmall, if_true, if_false, Bool.false_eq_true]
    exact ⟨by rw [h.ops], h.sIn, h.zErr, h.noCase, h.mxAlloc, h.zInit⟩
  · simp only [hfull, if_false, Bool.false_eq_true]
    exact ⟨by rw [h.ops], h.sIn, h.zErr, h.noCase, h.mxAlloc, h.zInit⟩

theorem stands_setArg {B C : List Instr} {op : ReOp} {arg : ℤ}
    (h : Stands noCase mx (B ++ (op, arg) :: C) z p) (arg' : ℤ) :
    Stands noCase mx (B ++ (op, arg') :: C) z (p.setArg B.length arg') := by
  refine ⟨?_, h.sIn, h.zErr, h.noCase, h.mxAlloc, h.zInit⟩
  rw [setArg, h.ops]
  simp [List.modify_eq_take_drop]

end Steps

section Characters

theorem lead_two_byte : ∀ k < 32, ¬(UInt8.ofNat (k + 0xC0)).toNat < 0x80 ∧
    (UInt8.ofNat (k + 0xC0)).toNat &&& 0xE0 = 0xC0 ∧
    (UInt8.ofNat (k + 0xC0)).toNat &&& 0x1F = k := by
  decide

theorem lead_three_byte : ∀ k < 16, ¬(UInt8.ofNat (k + 0xE0)).toNat < 0x80 ∧
    ¬(UInt8.ofNat (k + 0xE0)).toNat &&& 0xE0 = 0xC0 ∧
    (UInt8.ofNat (k + 0xE0)).toNat &&& 0xF0 = 0xE0 ∧
    (UInt8.ofNat (k + 0xE0)).toNat &&& 0x0F = k := by
  decide

theorem lead_four_byte : ∀ k < 8, ¬(UInt8.ofNat (k + 0xF0)).toNat < 0x80 ∧
    ¬(UInt8.ofNat (k + 0xF0)).toNat &&& 0xE0 = 0xC0 ∧
    ¬(UInt8.ofNat (k + 0xF0)).toNat &&& 0xF0 = 0xE0 ∧
    (UInt8.ofNat (k + 0xF0)).toNat &&& 0xF8 = 0xF0 ∧
    (UInt8.ofNat (k + 0xF0)).toNat &&& 0x07 = k := by
  decide

theorem trail_byte : ∀ k < 64, trailing (UInt8.ofNat (k + 0x80)) = true ∧
    (UInt8.ofNat (k + 0x80)).toNat &&& 0x3F = k := by
  decide

/-- A character that is written in UTF-8 is read as itself. -/
theorem reNextChar_utf8 (c : Char) (z : Bytes) :
    reNextChar (String.utf8EncodeChar c ++ z) = (c.toNat, z) := by
  have hvalid : c.val.toNat < 0xD800 ∨ 0xDFFF < c.val.toNat ∧ c.val.toNat < 0x110000 := c.valid
  change _ = (c.val.toNat, z)
  unfold String.utf8EncodeChar
  dsimp only
  generalize c.val.toNat = v at hvalid
  split_ifs with hone htwo hthree
  · have hv : (UInt8.ofNat v).toNat = v := UInt8.toNat_ofNat_of_lt' (show v < 256 by omega)
    simp only [List.cons_append, List.nil_append, reNextChar]
    rw [hv, if_pos (by omega)]
  · have hlead := lead_two_byte (v / 64 % 32) (Nat.mod_lt _ (by omega))
    have htrail := trail_byte (v % 64) (Nat.mod_lt _ (by omega))
    generalize UInt8.ofNat (v / 64 % 32 + 0xC0) = b at hlead ⊢
    generalize UInt8.ofNat (v % 64 + 0x80) = b₁ at htrail ⊢
    simp only [List.cons_append, List.nil_append, reNextChar]
    rw [if_neg hlead.1, if_pos hlead.2.1, if_pos htrail.1, hlead.2.2, htrail.2, if_neg (by omega)]
    congr 1
    omega
  · have hlead := lead_three_byte (v / 4096 % 16) (Nat.mod_lt _ (by omega))
    have htrail := trail_byte (v / 64 % 64) (Nat.mod_lt _ (by omega))
    have htrail' := trail_byte (v % 64) (Nat.mod_lt _ (by omega))
    generalize UInt8.ofNat (v / 4096 % 16 + 0xE0) = b at hlead ⊢
    generalize UInt8.ofNat (v / 64 % 64 + 0x80) = b₁ at htrail ⊢
    generalize UInt8.ofNat (v % 64 + 0x80) = b₂ at htrail' ⊢
    simp only [List.cons_append, List.nil_append, reNextChar]
    rw [if_neg hlead.1, if_neg hlead.2.1, if_pos hlead.2.2.1,
      if_pos (by rw [htrail.1, htrail'.1]; rfl), hlead.2.2.2, htrail.2, htrail'.2,
      if_neg (by omega)]
    congr 1
    omega
  · have hlead := lead_four_byte (v / 262144 % 8) (Nat.mod_lt _ (by omega))
    have htrail := trail_byte (v / 4096 % 64) (Nat.mod_lt _ (by omega))
    have htrail' := trail_byte (v / 64 % 64) (Nat.mod_lt _ (by omega))
    have htrail'' := trail_byte (v % 64) (Nat.mod_lt _ (by omega))
    generalize UInt8.ofNat (v / 262144 % 8 + 0xF0) = b at hlead ⊢
    generalize UInt8.ofNat (v / 4096 % 64 + 0x80) = b₁ at htrail ⊢
    generalize UInt8.ofNat (v / 64 % 64 + 0x80) = b₂ at htrail' ⊢
    generalize UInt8.ofNat (v % 64 + 0x80) = b₃ at htrail'' ⊢
    simp only [List.cons_append, List.nil_append, reNextChar]
    rw [if_neg hlead.1, if_neg hlead.2.1, if_neg hlead.2.2.1, if_pos hlead.2.2.2.1,
      if_pos (by rw [htrail.1, htrail'.1, htrail''.1]; rfl), hlead.2.2.2.2, htrail.2, htrail'.2,
      htrail''.2, if_neg (by omega)]
    congr 1
    omega

variable {noCase : Bool} {mx : ℕ} {ops : List Instr} {z : Bytes} {p q : ReCompiled}

theorem xNextChar_read {c : ℕ} {z' : Bytes}
    (hread : (if noCase then reNextCharNocase z else reNextChar z) = (c, z'))
    (h : Stands noCase mx ops z p) :
    p.xNextChar.1 = c ∧ Stands noCase mx ops z' p.xNextChar.2 := by
  have hp : (if p.noCase then reNextCharNocase p.sIn else reNextChar p.sIn) = (c, z') := by
    rw [h.sIn, h.noCase, hread]
  unfold xNextChar
  rw [hp]
  exact ⟨rfl, stands_sIn h z'⟩

theorem xNextChar_utf8 {c : Char} (h : Stands noCase mx ops (String.utf8EncodeChar c ++ z) p) :
    p.xNextChar.1 = foldWith noCase c.toNat ∧ Stands noCase mx ops z p.xNextChar.2 := by
  refine xNextChar_read ?_ h
  unfold reNextCharNocase
  rw [reNextChar_utf8]
  cases noCase <;> rfl

/-- A byte of its own that is no capital letter is read as itself in either case. -/
theorem xNextChar_byte {b : UInt8} (hb : b.toNat < 65 ∨ 90 < b.toNat ∧ b.toNat < 128)
    (h : Stands noCase mx ops (b :: z) p) :
    p.xNextChar.1 = b.toNat ∧ Stands noCase mx ops z p.xNextChar.2 := by
  refine xNextChar_read ?_ h
  have hchar : reNextChar (b :: z) = (b.toNat, z) := by
    simp only [reNextChar]
    rw [if_pos (by omega)]
  have hfold : foldCase b.toNat = b.toNat := by
    simp only [foldCase, show 'A'.toNat = 65 from rfl, show 'Z'.toNat = 90 from rfl]
    rw [if_neg (by omega)]
  unfold reNextCharNocase
  rw [hchar]
  cases noCase
  · rfl
  · simp [hfold]

theorem xNextChar_end (h : Stands noCase mx ops [] p) :
    p.xNextChar.1 = 0 ∧ Stands noCase mx ops [] p.xNextChar.2 := by
  refine xNextChar_read ?_ h
  cases noCase <;> rfl

end Characters

section Literals

variable {noCase : Bool} {mx : ℕ} {ops : List Instr} {z : Bytes} {p : ReCompiled}

theorem byte_inj {c s : Char} (hc : c.toNat < 128) (hs : s.toNat < 128) (h : byte c = byte s) :
    c = s := by
  have hval := congrArg UInt8.toNat h
  simp only [byte, UInt32.toNat_toUInt8] at hval
  change c.toNat % 256 = s.toNat % 256 at hval
  rw [Nat.mod_eq_of_lt (by omega), Nat.mod_eq_of_lt (by omega)] at hval
  exact Char.toNat_inj.mp hval

theorem toNat_byte {s : Char} (hs : s.toNat < 128) : (byte s).toNat = s.toNat := by
  simp only [byte, UInt32.toNat_toUInt8]
  change s.toNat % 256 = s.toNat
  exact Nat.mod_eq_of_lt (by omega)

/-- A character of one byte is the only one that begins with it. -/
theorem utf8_head (c : Char) : ∃ b t, String.utf8EncodeChar c = b :: t ∧
    ∀ s : Char, s.toNat < 128 → b = byte s → c = s := by
  have hvalid : c.val.toNat < 0xD800 ∨ 0xDFFF < c.val.toNat ∧ c.val.toNat < 0x110000 := c.valid
  have hbig (n : ℕ) (hn : n < 256) (hge : 128 ≤ n) :
      ∀ s : Char, s.toNat < 128 → UInt8.ofNat n = byte s → c = s := by
    intro s hs h
    have hval := congrArg UInt8.toNat h
    rw [toNat_byte hs, UInt8.toNat_ofNat_of_lt' hn] at hval
    omega
  unfold String.utf8EncodeChar
  dsimp only
  split_ifs with hone htwo hthree
  · refine ⟨_, _, rfl, ?_⟩
    intro s hs h
    have hval := congrArg UInt8.toNat h
    rw [toNat_byte hs, UInt8.toNat_ofNat_of_lt' (show c.val.toNat < 256 by omega)] at hval
    exact Char.toNat_inj.mp hval
  · exact ⟨_, _, rfl, hbig _ (by omega) (by omega)⟩
  · exact ⟨_, _, rfl, hbig _ (by omega) (by omega)⟩
  · exact ⟨_, _, rfl, hbig _ (by omega) (by omega)⟩

theorem literal_head {sp : List Char} {l : Literal} (h : l.Valid sp) :
    ∃ b t, Literal.render l = b :: t ∧
      ∀ s ∈ sp, s.toNat < 128 → s ≠ '\\' → b ≠ byte s := by
  cases l with
  | raw c =>
    obtain ⟨b, t, hbt, hb⟩ := utf8_head c
    refine ⟨b, t, hbt, ?_⟩
    rintro s hs hascii - heq
    exact h.2 (hb s hascii heq ▸ hs)
  | esc c | hex ds =>
    refine ⟨_, _, rfl, ?_⟩
    rintro s - hascii hne heq
    exact hne (byte_inj (by decide) hascii heq).symm

theorem fold_ne {sp : List Char} {c s : Char} (hc : c ∉ sp) (hs : s ∈ sp)
    (hletter : s.toNat < 65 ∨ 90 < s.toNat ∧ s.toNat < 97 ∨ 122 < s.toNat) :
    foldWith noCase c.toNat ≠ s.toNat := by
  have hcs : c.toNat ≠ s.toNat := fun h => hc (Char.toNat_inj.mp h ▸ hs)
  cases noCase with
  | false => exact hcs
  | true =>
    simp only [foldWith, if_true, ne_eq]
    rw [foldCase_eq _ _ (by omega) (by omega)]
    exact hcs

theorem reHex_render (d : HexDigit) (v : ℕ) :
    reHex (HexDigit.render d) v = some (v * 16 + (d.value : ℕ)) := by
  obtain ⟨⟨d, hd⟩, capital⟩ := d
  interval_cases d <;> cases capital <;> rfl

theorem reHex_digits (ds : List HexDigit) (v : ℕ) :
    (ds.map HexDigit.render).foldlM (fun v c => reHex c v) v =
      some (ds.foldl (fun v d => v * 16 + (d.value : ℕ)) v) := by
  induction ds generalizing v with
  | nil => rfl
  | cons d ds ih =>
    rw [List.map_cons, List.foldlM_cons, reHex_render]
    exact ih _

theorem reHexRun_digits {n : ℕ} {ds : List HexDigit} (hn : ds.length = n) (z : Bytes) :
    reHexRun n (ds.map HexDigit.render ++ z) = some (hexValue ds) := by
  subst hn
  have htake : (ds.map HexDigit.render ++ z).take ds.length = ds.map HexDigit.render :=
    List.take_left' (List.length_map _)
  unfold reHexRun
  rw [if_pos (by simp), htake]
  exact reHex_digits ds 0

theorem escapable_facts : ∀ c ∈ escapable, byte c ≠ byte 'u' ∧ byte c ≠ byte 'x' ∧
    zEsc.idxOf (byte c) < zEsc.length ∧ specialOp (byte c) = none ∧
    (if zEsc.idxOf (byte c) < 6 then signed (zTrans.getD (zEsc.idxOf (byte c)) 0)
      else signed (byte c)) = ((Literal.esc c).value false : ℕ) ∧
    (Literal.esc c).value true = (Literal.esc c).value false :=
  forall_of_all (by decide)

/-- What follows the backslash of an escaped literal. -/
def escaped : Literal → Option Bytes
  | .raw _ => none
  | .esc c => some [byte c]
  | .hex ds => some (hexLetter ds :: ds.map HexDigit.render)

theorem render_escaped {l : Literal} {t : Bytes} (h : escaped l = some t) :
    Literal.render l = byte '\\' :: t := by
  cases l <;> cases h <;> rfl

theorem reEscChar_escaped {sp : List Char} {l : Literal} (hl : l.Valid sp) {t : Bytes}
    (ht : escaped l = some t) (h : Stands noCase mx ops (t ++ z) p) :
    (reEscChar p).1 = (l.value noCase : ℤ) ∧ Stands noCase mx ops z (reEscChar p).2 ∧
      specialOp p.rePeek = none := by
  rw [rePeek_eq h]
  cases l with
  | raw c => cases ht
  | esc c =>
    cases ht
    obtain ⟨hu, hx, hlt, hspecial, hvalue, hcase⟩ := escapable_facts c hl
    have hsame : (Literal.esc c).value noCase = (Literal.esc c).value false := by
      cases noCase
      · rfl
      · exact hcase
    rw [hsame, ← hvalue]
    unfold reEscChar
    rw [h.sIn]
    simp only [List.cons_append, List.nil_append, hu, hx, if_false, hlt, if_true]
    exact ⟨trivial, stands_advance h, hspecial⟩
  | hex ds =>
    cases ht
    have hdrop {n : ℕ} (hn : ds.length = n) : (ds.map HexDigit.render ++ z).drop n = z :=
      List.drop_left' (by rw [List.length_map, hn])
    unfold reEscChar
    rw [h.sIn]
    simp only [List.cons_append, List.headD_cons]
    obtain hfour | htwo := hl.1
    · have hletter : hexLetter ds = byte 'u' := if_pos hfour
      have hspecial : specialOp (byte 'u') = none := by decide
      rw [hletter, if_pos rfl, reHexRun_digits hfour, hdrop hfour]
      exact ⟨rfl, stands_sIn h z, hspecial⟩
    · have hletter : hexLetter ds = byte 'x' := if_neg (by omega)
      have hne : byte 'x' ≠ byte 'u' := by decide
      have hspecial : specialOp (byte 'x') = none := by decide
      rw [hletter, if_neg hne, if_pos rfl, reHexRun_digits htwo, hdrop htwo]
      exact ⟨rfl, stands_sIn h z, hspecial⟩

/-- A literal inside a class. -/
theorem classChar_literal {l : Literal} (hl : l.Valid classSpecials)
    (h : Stands noCase mx ops (Literal.render l ++ z) p) :
    (classChar p).1 = (l.value noCase : ℤ) ∧ Stands noCase mx ops z (classChar p).2 ∧
      p.xNextChar.1 ≠ 0 ∧ p.xNextChar.1 ≠ '['.toNat := by
  have hbackslash {t : Bytes} (ht : escaped l = some t) :
      (classChar p).1 = (l.value noCase : ℤ) ∧ Stands noCase mx ops z (classChar p).2 ∧
        p.xNextChar.1 ≠ 0 ∧ p.xNextChar.1 ≠ '['.toNat := by
    rw [render_escaped ht, List.cons_append] at h
    obtain ⟨hc, hp⟩ := xNextChar_byte (by decide) h
    have hc : p.xNextChar.1 = '\\'.toNat := hc
    obtain ⟨hvalue, hstands, -⟩ := reEscChar_escaped hl ht hp
    unfold classChar
    dsimp only
    rw [hc, if_pos rfl]
    exact ⟨hvalue, hstands, by decide, by decide⟩
  cases l with
  | esc c | hex ds => exact hbackslash rfl
  | raw c =>
    obtain ⟨hc, hp⟩ := xNextChar_utf8 h
    have hvalue : p.xNextChar.1 = (Literal.raw c).value noCase := hc
    have hne : p.xNextChar.1 ≠ '\\'.toNat := by
      rw [hc]
      exact fold_ne hl.2 (by decide) (by decide)
    unfold classChar
    dsimp only
    rw [if_neg hne, hvalue]
    refine ⟨rfl, hp, value_ne noCase hl, ?_⟩
    exact fold_ne hl.2 (by decide) (by decide)

end Literals

end RSQLCipher.RegexpRender
