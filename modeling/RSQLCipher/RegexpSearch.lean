import RSQLCipher.RegexpParse
import RSQLCipher.RegexpLimit

namespace RSQLCipher.RegexpSearch

open RSQLCipher.Values
open RSQLCipher.RegexpCompile
open RSQLCipher.RegexpCompile.ReCompiled
open RSQLCipher.RegexpMatch
open RSQLCipher.RegexpProgram
open RSQLCipher.RegexpStates
open RSQLCipher.RegexpPrefix
open RSQLCipher.RegexpMeaning
open RSQLCipher.RegexpCode
open RSQLCipher.RegexpRender
open RSQLCipher.RegexpParse
open RSQLCipher.RegexpLimit

/-- The text of a whole expression. A `^` in front of it holds for every alternative. -/
def renderPattern (anchored : Bool) (r : Re) : Bytes :=
  (if anchored then [byte '^'] else []) ++ renderRe r

/-- An expression finds something in a text: from some place on, or, behind a `^` in front of
it, from the start. -/
def Finds (noCase anchored : Bool) (r : Re) (cs : List ℕ) : Prop :=
  ∃ pre w, cs = pre ++ w ∧ (anchored = true → pre = []) ∧
    ∃ τ, r.means noCase (pre.getLastD RE_START, w) τ

section Text

theorem nul_notMem_utf8 {c : Char} (hc : c.toNat ≠ 0) : 0 ∉ String.utf8EncodeChar c := by
  have hvalid : c.val.toNat < 0xD800 ∨ 0xDFFF < c.val.toNat ∧ c.val.toNat < 0x110000 := c.valid
  have hv : c.val.toNat ≠ 0 := hc
  have hne {n : ℕ} (hn : n < 256) (hpos : n ≠ 0) : (0 : UInt8) ≠ UInt8.ofNat n := by
    intro heq
    have hval := congrArg UInt8.toNat heq
    rw [UInt8.toNat_ofNat_of_lt' hn] at hval
    exact hpos hval.symm
  unfold String.utf8EncodeChar
  dsimp only
  generalize c.val.toNat = v at hvalid hv
  split_ifs with hone htwo hthree
  · simpa using hne (by omega) hv
  · simp only [List.mem_cons, List.not_mem_nil, or_false, not_or]
    exact ⟨hne (by omega) (by omega), hne (by omega) (by omega)⟩
  · simp only [List.mem_cons, List.not_mem_nil, or_false, not_or]
    exact ⟨hne (by omega) (by omega), hne (by omega) (by omega), hne (by omega) (by omega)⟩
  · simp only [List.mem_cons, List.not_mem_nil, or_false, not_or]
    exact ⟨hne (by omega) (by omega), hne (by omega) (by omega), hne (by omega) (by omega),
      hne (by omega) (by omega)⟩

theorem nul_notMem_decimal (n : ℕ) : 0 ∉ decimal n := by
  intro h
  obtain ⟨c, hc, hzero⟩ := List.mem_map.mp h
  have hdigit := Nat.isDigit_of_mem_toDigits (by decide) (by decide) hc
  have hbounds : 48 ≤ c.toNat ∧ c.toNat ≤ 57 := by
    rw [Char.isDigit, Bool.and_eq_true, decide_eq_true_iff, decide_eq_true_iff] at hdigit
    exact ⟨UInt32.le_iff_toNat_le.mp hdigit.1, UInt32.le_iff_toNat_le.mp hdigit.2⟩
  have hval := congrArg UInt8.toNat hzero
  rw [toNat_byte (by omega)] at hval
  change c.toNat = 0 at hval
  omega

theorem nul_notMem_literal {sp : List Char} {l : Literal} (h : l.Valid sp) :
    0 ∉ Literal.render l := by
  cases l with
  | raw c => exact nul_notMem_utf8 h.1
  | esc c =>
    have hall : ∀ c ∈ escapable, 0 ∉ Literal.render (.esc c) :=
      forall_of_all (by decide)
    exact hall c h
  | hex ds =>
    have hletter : 0 ≠ hexLetter ds := by
      unfold hexLetter
      split_ifs <;> decide
    have hdigit : ∀ value capital, 0 ≠ HexDigit.render ⟨value, capital⟩ := by
      decide
    simp only [Literal.render, List.mem_cons, List.mem_map, not_or, not_exists, not_and]
    exact ⟨by decide, hletter, fun d _ hd => hdigit d.value d.capital hd.symm⟩

theorem nul_notMem_simple {a : Simple} (ha : a.Valid) : 0 ∉ Simple.render a := by
  cases a with
  | lit l => exact nul_notMem_literal ha
  | any | boundary | start => decide
  | shorthand s => cases s <;> decide
  | cls negated m ms =>
    have hmembers : 0 ∉ (m :: ms).flatMap Member.render := by
      intro h
      obtain ⟨i, hi, hmem⟩ := List.mem_flatMap.mp h
      have hvalid := ha i hi
      cases i with
      | one l => exact nul_notMem_literal hvalid hmem
      | range lo hi =>
        simp only [Member.render, List.mem_append, List.mem_cons] at hmem
        obtain hmem | hmem | hmem := hmem
        · exact nul_notMem_literal hvalid.1 hmem
        · exact absurd hmem (by decide)
        · exact nul_notMem_literal hvalid.2 hmem
    simp only [Simple.render, List.mem_cons, List.mem_append, not_or]
    refine ⟨by decide, ⟨?_, hmembers⟩, by decide⟩
    cases negated <;> decide

theorem nul_notMem_quant (q : Quant) : 0 ∉ Quant.render q := by
  cases q with
  | once | star | plus | opt => decide
  | rep m n =>
    have hm := nul_notMem_decimal m
    have hn := nul_notMem_decimal n
    simp only [Quant.render, List.mem_cons, List.mem_append, not_or]
    refine ⟨by decide, hm, ?_, by decide⟩
    split_ifs
    · simp
    · simp only [List.mem_cons, not_or]
      exact ⟨by decide, hn⟩

theorem nul_notMem_eol (eol : Bool) : 0 ∉ eolText eol := by
  cases eol <;> decide

mutual

theorem nul_notMem_renderRe : (r : Re) → r.Valid → 0 ∉ renderRe r
  | .str s eol, hvalid => by
    have hs : 0 ∉ renderStr s := nul_notMem_renderStr s hvalid
    rw [renderRe, List.mem_append, not_or]
    exact ⟨hs, nul_notMem_eol eol⟩
  | .alt r s eol, hvalid => by
    simp only [renderRe, List.mem_append, List.mem_cons, not_or]
    exact ⟨nul_notMem_renderRe r hvalid.1, by decide, nul_notMem_renderStr s hvalid.2,
      nul_notMem_eol eol⟩

theorem nul_notMem_renderStr : (s : Str) → s.Valid → 0 ∉ renderStr s
  | .nil, _ => by
    rw [renderStr]
    exact List.not_mem_nil
  | .simple a q s, ⟨ha, _, hs⟩ => by
    rw [renderStr, List.mem_append, List.mem_append, not_or, not_or]
    exact ⟨nul_notMem_simple ha, nul_notMem_quant q, nul_notMem_renderStr s hs⟩
  | .group r q s, ⟨hr, _, hs⟩ => by
    simp only [renderStr, List.mem_append, List.mem_cons, not_or]
    exact ⟨by decide, nul_notMem_renderRe r hr.1, by decide, nul_notMem_quant q,
      nul_notMem_renderStr s hs⟩

end

end Text

section Search

variable {noCase : Bool} {mx : ℕ} {p q : ReCompiled}

theorem finished_stands {ops : List Instr} (h : Stands noCase mx ops [] q)
    (hroom : 2 * ops.length ≤ mx) : ∃ p, finished q = some (.ok p) ∧
      p.ops = ops ++ [(.accept, 0)] ∧ p.noCase = noCase := by
  obtain ⟨hp, -⟩ := stands_append h hroom .accept 0
  unfold finished
  rw [if_neg (by simp [h.sIn])]
  dsimp only
  split_ifs
  · dsimp only
    rw [hp.zErr]
    exact ⟨_, rfl, hp.ops, hp.noCase⟩
  · rw [hp.zErr]
    exact ⟨_, rfl, hp.ops, hp.noCase⟩

/-- The code of a whole expression. -/
def patternCode (noCase anchored : Bool) (r : Re) : List Instr :=
  (if anchored then [] else [(.anystar, 0)]) ++ r.code noCase

theorem started_pattern (noCase : Bool) (mx : ℕ) {anchored : Bool} {r : Re}
    (hstart : anchored = false → (renderRe r).head? ≠ some (byte '^')) :
    Stands noCase mx (if anchored then [] else [(.anystar, 0)]) (renderRe r)
      (started ⟨[], none, [], noCase, [], 30, mx⟩ (renderPattern anchored r)) := by
  cases anchored with
  | true => exact ⟨rfl, rfl, rfl, rfl, rfl, rfl⟩
  | false =>
    have hhead : (renderPattern false r).head? ≠ some (byte '^') := hstart rfl
    unfold started
    rw [if_neg hhead]
    have hempty : Stands noCase mx [] [] ⟨[], none, [], noCase, [], 30, mx⟩ :=
      ⟨rfl, rfl, rfl, rfl, rfl, rfl⟩
    exact stands_sIn (stands_append hempty (by simp) .anystar 0).1 (renderRe r)

theorem reCompile_renderPattern {anchored : Bool} {r : Re} (hvalid : r.Valid)
    (hstart : anchored = false → (renderRe r).head? ≠ some (byte '^'))
    (hmx : 30 ≤ mx) (hlimit : r.limit ≤ mx) (hroom : 3 * ((r.code noCase).length + 1) ≤ mx) :
    ∃ p, reCompile (renderPattern anchored r) mx noCase = some (.ok p) ∧
      p.ops = patternCode noCase anchored r ++ [(.accept, 0)] ∧ p.noCase = noCase := by
  have hnul : (renderPattern anchored r).takeWhile (· ≠ 0) = renderPattern anchored r := by
    rw [List.takeWhile_eq_self_iff]
    intro b hb
    rw [decide_eq_true_iff]
    rintro rfl
    rw [renderPattern, List.mem_append] at hb
    obtain hb | hb := hb
    · cases anchored <;> exact absurd hb (by decide)
    · exact nul_notMem_renderRe r hvalid hb
  have hstands := started_pattern noCase mx hstart
  have hlen : (if anchored then [] else [((.anystar, 0) : Instr)]).length ≤ 1 := by
    cases anchored <;> simp
  obtain ⟨q, hq, hread⟩ := subreads_re noCase r hvalid hlimit _ [] _ (by simpa using hstands)
    (.inl rfl) (by omega)
  have hsub := hq _ (alternatives_end hread (by decide) _)
  obtain ⟨p, hp, hops, hcase⟩ := finished_stands hread (by rw [List.length_append]; omega)
  refine ⟨p, ?_, hops, hcase⟩
  rw [reCompile_of_lt (by omega), hnul, subcompile_enough hsub]
  · exact hp
  · have := length_started ⟨[], none, [], noCase, [], 30, mx⟩ (renderPattern anchored r)
    unfold enough
    omega

theorem reaches_pattern {anchored : Bool} {r : Re} (hvalid : r.Valid) {cs : List ℕ}
    (hcs : 0 ∉ cs) :
    Reaches (patternCode noCase anchored r ++ [(.accept, 0)]) RE_START (cs ++ [0]) 0 ↔
      Finds noCase anchored r cs := by
  have hend : ∀ p cs, Reaches (patternCode noCase anchored r ++ [(.accept, 0)]) p cs
      (patternCode noCase anchored r).length := by
    intro p cs
    have haccept : Accepting (patternCode noCase anchored r ++ [(.accept, 0)])
        (patternCode noCase anchored r).length := ⟨0, by simp⟩
    cases cs with
    | nil => exact reaches_nil.mpr (.inl haccept)
    | cons c cs => exact ⟨1, .inl haccept⟩
  cases anchored with
  | true =>
    have hat : At (r.code noCase ++ [(.accept, 0)]) 0 (r.code noCase) :=
      ⟨List.prefix_append _ _, by simp⟩
    have hfinds := finds_re r hvalid 0 hat (by simpa [patternCode] using hend) RE_START cs hcs
    refine hfinds.trans ?_
    constructor
    · rintro ⟨τ, hτ⟩
      exact ⟨[], cs, rfl, fun _ => rfl, τ, hτ⟩
    · rintro ⟨pre, w, rfl, hpre, τ, hτ⟩
      obtain rfl := hpre rfl
      exact ⟨τ, hτ⟩
  | false =>
    have hops : patternCode noCase false r ++ [(.accept, 0)] =
        (.anystar, 0) :: (r.code noCase ++ [(.accept, 0)]) := rfl
    have hat : At (patternCode noCase false r ++ [(.accept, 0)]) 1 (r.code noCase) := by
      rw [hops]
      exact ⟨List.prefix_append _ _, by simp; omega⟩
    have hend' : ∀ p cs, Reaches (patternCode noCase false r ++ [(.accept, 0)]) p cs
        (1 + (r.code noCase).length) := by
      intro p cs
      have hlen : (patternCode noCase false r).length = 1 + (r.code noCase).length := by
        simp only [patternCode, List.length_append]
        rfl
      exact hlen ▸ hend p cs
    have hx : (patternCode noCase false r ++ [(.accept, 0)])[0]? = some (.anystar, 0) := by
      rw [hops]
      rfl
    rw [reaches_anystar hx (by rw [hops]; simp)]
    constructor
    · rintro ⟨pre, post, hsplit, hpost, h⟩
      obtain ⟨w, c, rfl⟩ := List.eq_nil_or_concat' post |>.resolve_left hpost
      rw [← List.append_assoc] at hsplit
      obtain ⟨rfl, hc⟩ := List.append_inj' hsplit rfl
      cases hc
      rw [List.mem_append, not_or] at hcs
      obtain ⟨τ, hτ⟩ := (finds_re r hvalid 1 hat hend' _ w hcs.2).mp h
      exact ⟨pre, w, rfl, by simp, τ, hτ⟩
    · rintro ⟨pre, w, rfl, -, τ, hτ⟩
      rw [List.mem_append, not_or] at hcs
      refine ⟨pre, w ++ [0], by rw [List.append_assoc], by simp, ?_⟩
      exact (finds_re r hvalid 1 hat hend' _ w hcs.2).mpr ⟨τ, hτ⟩

/-- Under every limit an expression is compiled to its code, or it is too big for the limit. -/
theorem compiles_pattern (noCase : Bool) {anchored : Bool} {r : Re} (hvalid : r.Valid)
    (hstart : anchored = false → (renderRe r).head? ≠ some (byte '^')) (mx : ℕ) :
    reCompile (renderPattern anchored r) mx noCase = some (.error tooBig) ∨
      ∃ p, reCompile (renderPattern anchored r) mx noCase = some (.ok p) ∧
        p.ops = patternCode noCase anchored r ++ [(.accept, 0)] ∧ p.noCase = noCase := by
  -- a limit that is large enough for it, and no smaller
  obtain ⟨large, hmx, hmin, hlimit, hroom⟩ : ∃ large, mx ≤ large ∧ 30 ≤ large ∧
      r.limit ≤ large ∧ 3 * ((r.code noCase).length + 1) ≤ large :=
    ⟨mx + 30 + r.limit + 3 * ((r.code noCase).length + 1), by omega, by omega, by omega, by omega⟩
  obtain ⟨q, hq, hops, hcase⟩ := reCompile_renderPattern hvalid hstart hmin hlimit hroom
  obtain hbig | ⟨p, hp, hops', hcase'⟩ := reCompile_limit hmx hq
  · exact .inl hbig
  · exact .inr ⟨p, hp, hops'.trans hops, hcase'.trans hcase⟩

/-- A compiled expression finds in every text what the expression means. The replacement
character is looked for by its own bytes, so that it may not be found where malformed text is
read as it. -/
theorem reMatch_pattern {p : ReCompiled} {anchored : Bool} {r : Re} (hvalid : r.Valid)
    (hp : reCompile (renderPattern anchored r) mx noCase = some (.ok p))
    (hops : p.ops = patternCode noCase anchored r ++ [(.accept, 0)]) (hcase : p.noCase = noCase)
    (zIn : Bytes) :
    ∃ b, reMatch p zIn = some b ∧
      ((.match, 0xFFFD) ∉ r.code noCase ∨ 0xFFFD ∉ chars reNextChar (zIn.takeWhile (· ≠ 0)) →
        (b = true ↔ Finds noCase anchored r
          (chars (nextCharOf noCase) (zIn.takeWhile (· ≠ 0))))) := by
  obtain ⟨b, hb⟩ := Option.ne_none_iff_exists'.mp (reMatch_ne_none hp zIn)
  refine ⟨b, hb, ?_⟩
  intro hmark
  have hmark' : (.match, 0xFFFD) ∉ p.ops ∨ 0xFFFD ∉ chars reNextChar (zIn.takeWhile (· ≠ 0)) := by
    refine hmark.imp_left fun hcode => ?_
    rw [hops]
    cases anchored <;> simp [patternCode, hcode]
  have hzero := zero_notMem_chars (reader_nextCharOf noCase) (nul_notMem_takeWhile zIn)
  obtain ⟨hcompiled, -⟩ := compiled_of_reCompile hp
  obtain ⟨b', hb', hiff⟩ := reMatch_spec hcompiled zIn hmark'
  obtain rfl : b = b' := Option.some.inj (hb.symm.trans hb')
  rw [hcase, hops] at hiff
  exact hiff.trans (reaches_pattern hvalid hzero)

/-- Compiling and matching an expression finds in every text what the expression means, under
every limit that it is not too big for. -/
theorem reMatch_renderPattern {noCase anchored : Bool} {r : Re} (hvalid : r.Valid)
    (hstart : anchored = false → (renderRe r).head? ≠ some (byte '^')) (mx : ℕ) :
    (reCompile (renderPattern anchored r) mx noCase = some (.error "REGEXP pattern too big") ∨
      ∃ p, reCompile (renderPattern anchored r) mx noCase = some (.ok p) ∧
        ∀ zIn, ∃ b, reMatch p zIn = some b ∧
          ((.match, 0xFFFD) ∉ r.code noCase ∨
              0xFFFD ∉ chars reNextChar (zIn.takeWhile (· ≠ 0)) →
            (b = true ↔ Finds noCase anchored r
              (chars (nextCharOf noCase) (zIn.takeWhile (· ≠ 0)))))) ∧
      (30 ≤ mx → r.limit ≤ mx → 3 * ((r.code noCase).length + 1) ≤ mx →
        ∃ p, reCompile (renderPattern anchored r) mx noCase = some (.ok p)) := by
  constructor
  · obtain hbig | ⟨p, hp, hops, hcase⟩ := compiles_pattern noCase hvalid hstart mx
    · exact .inl hbig
    · exact .inr ⟨p, hp, reMatch_pattern hvalid hp hops hcase⟩
  · intro hmx hlimit hroom
    obtain ⟨p, hp, -⟩ := reCompile_renderPattern hvalid hstart hmx hlimit hroom
    exact ⟨p, hp⟩

def sample : Re :=
  .alt (.str (.simple (.lit (.raw 'a')) (.rep 1 2) .nil) false)
    (.group (.alt (.str (.simple
        (.lit (.hex [⟨.mk 4 (by decide), false⟩, ⟨.mk 10 (by decide), true⟩])) .once
        (.simple (.cls true (.range (.raw 'c') (.raw 'd')) []) .plus .nil)) false)
      (.simple (.shorthand .digit) .once .nil) false) .star .nil) true

theorem sample_valid : sample.Valid := by
  simp [sample, Re.Valid, Str.Valid, Simple.Valid, Quant.Valid, Member.Valid, Literal.Valid,
    Re.NoEol, specials, classSpecials, hexValue]

theorem reMatch_renderPattern_sample :
    renderPattern false sample = ("a\x7b1,2\x7d|(\\x4A[^c-d]+|\\d)*$".toList.map byte) ∧
      ∃ p, reCompile (renderPattern false sample) 100 false = some (.ok p) ∧
        ∀ zIn, ∃ b, reMatch p zIn = some b ∧ (b = true ↔
          Finds false false sample (chars (nextCharOf false) (zIn.takeWhile (· ≠ 0)))) := by
  obtain ⟨hmeaning, hfits⟩ :=
    @reMatch_renderPattern false false sample sample_valid (by decide) 100
  obtain ⟨p, hp⟩ := hfits (by decide) (by decide) (by decide)
  refine ⟨by decide, p, hp, ?_⟩
  obtain hbig | ⟨p', hp', hmatch⟩ := hmeaning
  · rw [hp] at hbig
    cases hbig
  · obtain rfl : p = p' := by
      rw [hp] at hp'
      exact Except.ok.inj (Option.some.inj hp')
    intro zIn
    obtain ⟨b, hb, hiff⟩ := hmatch zIn
    exact ⟨b, hb, hiff (.inl (by decide))⟩

end Search

end RSQLCipher.RegexpSearch
