import RSQLCipher.RegexpRender

namespace RSQLCipher.RegexpParse

open RSQLCipher.Values
open RSQLCipher.RegexpCompile
open RSQLCipher.RegexpCompile.ReCompiled
open RSQLCipher.RegexpProgram
open RSQLCipher.RegexpMeaning
open RSQLCipher.RegexpRender

variable {noCase : Bool} {mx : ℕ} {ops : List Instr} {z : Bytes} {p : ReCompiled}

section Decimal

theorem number_digit {d : ℕ} (hd : d < 10) {m : ℕ} (hroom : (m * 10 + d) * 2 ≤ mx) (z : Bytes) :
    number mx m (byte d.digitChar :: z) = number mx (m * 10 + d) z := by
  have hdigit : byte '0' ≤ byte d.digitChar ∧ byte d.digitChar ≤ byte '9' ∧
      (byte d.digitChar).toNat - '0'.toNat = d := by
    interval_cases d <;> decide
  rw [number, if_pos ⟨hdigit.1, hdigit.2.1⟩]
  dsimp only
  rw [hdigit.2.2, if_neg (by omega)]

/-- A number in decimal is read as itself, up to what follows it. -/
theorem number_decimal (n : ℕ) (hroom : n * 2 ≤ mx) (z : Bytes) :
    number mx 0 (decimal n ++ z) = number mx n z := by
  induction n using Nat.strong_induction_on generalizing z with
  | _ n ih =>
    by_cases hn : n < 10
    · rw [decimal, Nat.toDigits_of_lt_base hn]
      simpa using number_digit (m := 0) hn (by omega) z
    · have hsplit : decimal n = decimal (n / 10) ++ [byte (n % 10).digitChar] := by
        rw [decimal, Nat.toDigits_of_base_le (by omega) (by omega), List.map_append]
        rfl
      rw [hsplit, List.append_assoc, ih (n / 10) (by omega) (by omega), List.singleton_append,
        number_digit (Nat.mod_lt n (by omega)) (by omega)]
      congr 1
      omega

theorem number_stop {b : UInt8} (hb : ¬(byte '0' ≤ b ∧ b ≤ byte '9')) (m : ℕ) (z : Bytes) :
    number mx m (b :: z) = some (m, b :: z) := by
  rw [number, if_neg hb]

end Decimal

section Repetition

variable {A B C : List Instr}

theorem repeated_zero (B : List Instr) : repeated B 0 = [] := rfl

theorem repeated_succ (B : List Instr) (k : ℕ) : repeated B (k + 1) = B ++ repeated B k := by
  simp [repeated, List.replicate_succ]

theorem repeated_length (B : List Instr) (k : ℕ) : (repeated B k).length = k * B.length := by
  simp [repeated]

theorem stands_copy_middle (h : Stands noCase mx (A ++ (B ++ C)) z p)
    (hroom : 3 * (A.length + B.length + C.length + B.length) ≤ mx) :
    Stands noCase mx (A ++ (B ++ (C ++ B))) z (p.reCopy A.length B.length) := by
  have hcopy := stands_copy h (i := A.length) (N := B.length) (by
    rw [List.length_append, List.length_append]
    omega)
  rw [List.drop_left, List.take_left] at hcopy
  simpa using hcopy

theorem stands_copies {k : ℕ} (h : Stands noCase mx (A ++ (B ++ C)) z p)
    (hroom : 3 * (A.length + B.length + C.length + k * B.length) ≤ mx) :
    Stands noCase mx (A ++ (B ++ (C ++ repeated B k))) z (copies A.length B.length k p) := by
  induction k generalizing C p with
  | zero => simpa [copies, repeated] using h
  | succ k ih =>
    rw [Nat.add_one_mul k] at hroom
    have hcopy := stands_copy_middle h (by omega)
    have hrest := ih hcopy (by rw [List.length_append]; omega)
    rw [copies]
    simpa [repeated_succ] using hrest

theorem stands_optionalCopies {k : ℕ} (h : Stands noCase mx (A ++ (B ++ C)) z p)
    (hroom : 3 * (A.length + B.length + C.length + k * (B.length + 1)) ≤ mx) :
    Stands noCase mx (A ++ (B ++ (C ++ repeated (Quant.code B .opt) k))) z
      (optionalCopies A.length B.length k p) := by
  induction k generalizing C p with
  | zero => simpa [optionalCopies, repeated] using h
  | succ k ih =>
    rw [Nat.add_one_mul k] at hroom
    obtain ⟨hfork, -⟩ := stands_append h (by
      rw [List.length_append, List.length_append]
      omega) .fork ((B.length : ℤ) + 1)
    have hfork' : Stands noCase mx (A ++ (B ++ (C ++ [(.fork, (B.length : ℤ) + 1)]))) z
        (p.reAppend .fork ((B.length : ℤ) + 1)).1 := by
      simpa using hfork
    have hcopy := stands_copy_middle hfork' (by
      rw [List.length_append, List.length_singleton]
      omega)
    have hrest := ih hcopy (by
      rw [List.length_append, List.length_append, List.length_singleton]
      omega)
    rw [optionalCopies]
    simpa [repeated_succ, Quant.code] using hrest

theorem stands_repeatCode {m n : ℕ} (hmn : m ≤ n) (hn : 0 < n)
    (h : Stands noCase mx (A ++ B) z p)
    (hroom : 3 * (A.length + (Quant.code B (.rep m n)).length) ≤ mx) :
    ∃ q, repeatCode p A.length m n = .ok q ∧
      Stands noCase mx (A ++ Quant.code B (.rep m n)) z q := by
  have hlen : (Quant.code B (.rep m n)).length = m * B.length + (n - m) * (B.length + 1) := by
    simp [Quant.code, repeated_length]
  have hsz : p.nState - A.length = B.length := by
    rw [h.nState, List.length_append, Nat.add_sub_cancel_left]
  rw [hlen] at hroom
  unfold repeatCode
  dsimp only
  rw [hsz]
  cases m with
  | zero =>
    rw [if_pos rfl, if_neg (Nat.ne_of_gt hn)]
    refine ⟨_, rfl, ?_⟩
    obtain ⟨k, rfl⟩ := Nat.exists_eq_add_of_le' hn
    rw [Nat.sub_zero, Nat.add_one_mul k] at hroom
    obtain ⟨hfork, -⟩ := stands_insert h (by rw [List.length_append]; omega) A.length .fork
      ((B.length : ℤ) + 1)
    rw [List.take_left, List.drop_left] at hfork
    have hfork' : Stands noCase mx ((A ++ [(.fork, (B.length : ℤ) + 1)]) ++ (B ++ [])) z
        (p.reInsert A.length .fork ((B.length : ℤ) + 1)).1 := by
      simpa using hfork
    have hcopies := stands_optionalCopies (k := k) hfork' (by
      rw [List.length_append, List.length_singleton, List.length_nil]
      omega)
    rw [List.length_append, List.length_singleton] at hcopies
    simpa [Quant.code, repeated_zero, repeated_succ] using hcopies
  | succ m =>
    rw [if_neg (Nat.succ_ne_zero m), if_neg (Nat.ne_of_gt hn)]
    refine ⟨_, rfl, ?_⟩
    rw [Nat.add_one_mul m] at hroom
    have h' : Stands noCase mx (A ++ (B ++ [])) z p := by
      simpa using h
    have hcopies := stands_copies (k := m) h' (by rw [List.length_nil]; omega)
    have hopt := stands_optionalCopies (k := n - (m + 1)) hcopies (by
      rw [List.nil_append, repeated_length]
      omega)
    simpa [Quant.code, repeated_succ] using hopt

end Repetition

section Elements

variable {q r : ReCompiled}

/-- The loop over the elements gets from one state to another. -/
def Leads (i : Option ℕ) (p : ReCompiled) (j : Option ℕ) (r : ReCompiled) : Prop :=
  ∀ q, Elements j r q → Elements i p q

theorem leads_trans {i j k : Option ℕ} (h : Leads i p j q) (h' : Leads j q k r) :
    Leads i p k r := fun s hs => h s (h' s hs)

/-- What a string of elements is followed by. -/
def Behind (z : Bytes) : Prop := z = [] ∨ z.head? = some (byte '|') ∨ z.head? = some (byte ')')

theorem elements_end (h : Stands noCase mx ops z p) (hz : Behind z) (i : Option ℕ) :
    ∃ q, Elements i p q ∧ Stands noCase mx ops z q := by
  cases z with
  | nil =>
    obtain ⟨hc, hp⟩ := xNextChar_end h
    refine ⟨_, ⟨1, ?_⟩, hp⟩
    rw [reElements]
    dsimp only
    rw [if_pos hc]
  | cons b z =>
    have hb : b = byte '|' ∨ b = byte ')' := by
      simpa [Behind] using hz
    refine ⟨p, ⟨1, ?_⟩, h⟩
    have hc : p.xNextChar.1 = '|'.toNat ∨ p.xNextChar.1 = ')'.toNat := by
      obtain rfl | rfl := hb
      · exact .inl (xNextChar_byte (by decide) h).1
      · exact .inr (xNextChar_byte (by decide) h).1
    rw [reElements]
    dsimp only
    rw [if_neg (by obtain hc | hc := hc <;> rw [hc] <;> decide), if_pos hc]

theorem leads_element {c : ℕ} {i : Option ℕ} (hc : p.xNextChar.1 = c)
    (hplain : c ≠ 0 ∧ c ≠ '|'.toNat ∧ c ≠ ')'.toNat ∧ c ≠ '('.toNat)
    (h : reElement c i p.xNextChar.2 = some (.ok q)) : Leads i p (some p.nState) q := by
  rintro r ⟨fuel, hfuel⟩
  refine ⟨fuel + 1, ?_⟩
  rw [reElements]
  dsimp only
  rw [hc, if_neg hplain.1,
    if_neg (by simp only [hplain.2.1, hplain.2.2.1, or_self, not_false_eq_true]), if_neg hplain.2.2.2, h]
  exact hfuel

theorem leads_group {i : Option ℕ} (hc : p.xNextChar.1 = '('.toNat)
    (h : Subcompiles p.xNextChar.2 q) (hq : q.rePeek = byte ')') :
    Leads i p (some p.nState) q.advance := by
  rintro r ⟨f, hf⟩
  obtain ⟨g, hg⟩ := h
  refine ⟨max f g + 1, ?_⟩
  rw [reElements]
  dsimp only
  rw [hc, if_neg (by decide), if_neg (by decide), if_pos rfl,
    (subcompile_mono (le_max_right f g)).1 _ _ hg]
  change (if q.rePeek ≠ byte ')' then _ else _) = _
  rw [if_neg (by simp [hq])]
  exact (subcompile_mono (le_max_left f g)).2.2 _ _ _ hf

end Elements

section Classes

theorem member_head {m : Member} (h : m.Valid) : ∃ b t, Member.render m = b :: t ∧
    b ≠ byte ']' ∧ b ≠ byte '-' ∧ b ≠ byte '^' := by
  have hliteral {l : Literal} (h : l.Valid classSpecials) (t' : Bytes) :
      ∃ b t, Literal.render l ++ t' = b :: t ∧ b ≠ byte ']' ∧ b ≠ byte '-' ∧ b ≠ byte '^' := by
    obtain ⟨b, t, hbt, hb⟩ := literal_head h
    refine ⟨b, t ++ t', by rw [hbt, List.cons_append], ?_, ?_, ?_⟩ <;>
      exact hb _ (by decide) (by decide) (by decide)
  cases m with
  | one l => simpa [Member.render] using hliteral h []
  | range lo hi => exact hliteral h.1 _

theorem classMember_render {m : Member} (hm : m.Valid)
    (h : Stands noCase mx ops (Member.render m ++ z) p) (hz : z.headD 0 ≠ byte '-')
    (hroom : 2 * (ops.length + (m.code noCase).length) ≤ mx) :
    Stands noCase mx (ops ++ m.code noCase) z (classMember p).2 ∧ (classMember p).1 ≠ 0 ∧
      p.xNextChar.1 ≠ 0 ∧ p.xNextChar.1 ≠ '['.toNat := by
  cases m with
  | one l =>
    obtain ⟨hc, hp, hne⟩ := classChar_literal hm h
    obtain ⟨hp', -⟩ := stands_append hp (by simp only [Member.code, List.length_cons] at hroom; omega)
      .ccValue (l.value noCase)
    unfold classMember
    dsimp only
    rw [hc, rePeek_eq hp, if_neg hz]
    exact ⟨hp', Nat.cast_ne_zero.mpr (value_ne noCase hm), hne⟩
  | range lo hi =>
    simp only [Member.render, List.append_assoc, List.cons_append] at h
    obtain ⟨hc, hp, hne⟩ := classChar_literal hm.1 h
    simp only [Member.code, List.length_cons, List.length_nil] at hroom
    obtain ⟨hp₁, -⟩ := stands_append hp (by omega) .ccRange (lo.value noCase)
    obtain ⟨hc₂, hp₂, -⟩ := classChar_literal hm.2 (stands_advance hp₁)
    obtain ⟨hp₃, -⟩ := stands_append hp₂ (by
      rw [List.length_append, List.length_singleton]
      omega) .ccRange (hi.value noCase)
    unfold classMember
    dsimp only
    rw [hc, rePeek_eq hp, List.headD_cons, if_pos rfl, hc₂]
    refine ⟨?_, Nat.cast_ne_zero.mpr (value_ne noCase hm.2), hne⟩
    simpa [Member.code] using hp₃

/-- The members of a class are read one by one, up to the bracket. -/
theorem classLoop_render (m : Member) (ms : List Member) (hvalid : ∀ i ∈ m :: ms, i.Valid)
    (fuel : ℕ) (hfuel : ms.length < fuel)
    (h : Stands noCase mx ops ((m :: ms).flatMap Member.render ++ byte ']' :: z) p)
    (hroom : 2 * (ops.length + ((m :: ms).flatMap (Member.code noCase)).length) ≤ mx) :
    ∃ q, classLoop fuel p = some (.ok q) ∧
      Stands noCase mx (ops ++ (m :: ms).flatMap (Member.code noCase)) z q := by
  induction ms generalizing m ops fuel p with
  | nil =>
    obtain ⟨fuel, rfl⟩ := Nat.exists_eq_succ_of_ne_zero (Nat.ne_of_gt hfuel)
    simp only [List.flatMap_cons, List.flatMap_nil, List.append_nil] at h hroom ⊢
    obtain ⟨hp, hvalue, hzero, hopen⟩ :=
      classMember_render (hvalid m (by simp)) h (show byte ']' ≠ byte '-' by decide) hroom
    refine ⟨_, ?_, stands_advance hp⟩
    rw [classLoop, if_neg hzero, if_neg (fun hand => hopen hand.1)]
    dsimp only
    rw [rePeek_eq hp, List.headD_cons, if_pos rfl, if_neg hvalue]
  | cons m' ms ih =>
    obtain ⟨fuel, rfl⟩ := Nat.exists_eq_succ_of_ne_zero (Nat.ne_of_gt (Nat.zero_lt_of_lt hfuel))
    rw [List.flatMap_cons, List.append_assoc] at h
    rw [List.flatMap_cons, List.length_append] at hroom
    have hvalid' : ∀ i ∈ m' :: ms, i.Valid := fun i hi => hvalid i (List.mem_cons_of_mem m hi)
    obtain ⟨b, t, hbt, hclose, hdash, -⟩ := member_head (hvalid' m' (by simp))
    have hnext : ((m' :: ms).flatMap Member.render ++ byte ']' :: z).headD 0 = b := by
      rw [List.flatMap_cons, hbt]
      rfl
    obtain ⟨hp, hvalue, hzero, hopen⟩ :=
      classMember_render (hvalid m (by simp)) h (by rw [hnext]; exact hdash) (by omega)
    obtain ⟨q, hq, hstands⟩ := ih m' hvalid' fuel
      (Nat.lt_of_succ_lt_succ (by simpa using hfuel)) hp (by
        rw [List.length_append]
        omega)
    refine ⟨q, ?_, ?_⟩
    · rw [classLoop, if_neg hzero, if_neg (fun hand => hopen hand.1)]
      dsimp only
      rw [rePeek_eq hp, hnext, if_neg hclose, hq]
    · rw [List.flatMap_cons, ← List.append_assoc]
      exact hstands

theorem length_le_render (ms : List Member) (h : ∀ m ∈ ms, m.Valid) :
    ms.length ≤ (ms.flatMap Member.render).length := by
  induction ms with
  | nil => simp
  | cons m ms ih =>
    obtain ⟨b, t, hbt, -⟩ := member_head (h m (by simp))
    have hrest := ih fun i hi => h i (List.mem_cons_of_mem m hi)
    rw [List.flatMap_cons, List.length_append, hbt]
    simp only [List.length_cons]
    omega

theorem reClass_render (negated : Bool) (m : Member) (ms : List Member)
    (hvalid : ∀ i ∈ m :: ms, i.Valid)
    (h : Stands noCase mx ops ((if negated then [byte '^'] else []) ++
      (m :: ms).flatMap Member.render ++ byte ']' :: z) p)
    (hroom : 2 * (ops.length + ((Simple.cls negated m ms).code noCase).length) ≤ mx) :
    ∃ q, reClass p = some (.ok q) ∧
      Stands noCase mx (ops ++ (Simple.cls negated m ms).code noCase) z q := by
  simp only [Simple.code, List.length_cons] at hroom ⊢
  -- The opcode of the class, and the text behind it.
  have hopen : Stands noCase mx (ops ++ [(if negated then .ccExc else .ccInc, 0)])
      ((m :: ms).flatMap Member.render ++ byte ']' :: z)
      (if p.rePeek = byte '^' then (p.reAppend .ccExc 0).1.advance
        else (p.reAppend .ccInc 0).1) := by
    rw [rePeek_eq h]
    cases negated with
    | true => exact stands_advance (stands_append h (by omega) .ccExc 0).1
    | false =>
      obtain ⟨b, t, hbt, -, -, hcaret⟩ := member_head (hvalid m (by simp))
      simp only [Bool.false_eq_true, if_false, List.nil_append] at h ⊢
      have hhead : ((m :: ms).flatMap Member.render ++ byte ']' :: z).headD 0 = b := by
        rw [List.flatMap_cons, hbt]
        rfl
      rw [hhead, if_neg hcaret]
      exact (stands_append h (by omega) .ccInc 0).1
  have hfuel := length_le_render (m :: ms) hvalid
  obtain ⟨q, hq, hstands⟩ := classLoop_render m ms hvalid
    (((m :: ms).flatMap Member.render ++ byte ']' :: z).length + 1)
    (by rw [List.length_append]; simp only [List.length_cons] at hfuel ⊢; omega) hopen (by
      rw [List.length_append, List.length_singleton]
      omega)
  have hlen := hstands.nState
  simp only [List.length_append, List.length_singleton] at hlen
  have harg : ((ops.length + 1 + ((m :: ms).flatMap (Member.code noCase)).length : ℕ) : ℤ) -
      (ops.length : ℕ) = ((m :: ms).flatMap (Member.code noCase)).length + 1 := by
    push_cast
    ring
  rw [List.append_assoc, List.singleton_append] at hstands
  refine ⟨_, ?_, stands_setArg hstands _⟩
  unfold reClass
  dsimp only
  rw [hopen.sIn, hq]
  change some (Except.ok (if q.nState > p.nState then _ else q)) = _
  rw [h.nState, if_pos (by omega), hlen, harg]

end Classes

section Simples

theorem reElement_plain {c : ℕ} (hc : ∀ s ∈ specials, c ≠ s.toNat) (i : Option ℕ)
    (p : ReCompiled) : reElement c i p = some (.ok (p.reAppend .match c).1) := by
  unfold reElement
  rw [if_neg (hc '.' (by decide)), if_neg (hc '*' (by decide)), if_neg (hc '+' (by decide)),
    if_neg (hc '?' (by decide)), if_neg (hc '$' (by decide)), if_neg (hc '^' (by decide)),
    if_neg (hc '\x7b' (by decide)), if_neg (hc '[' (by decide)), if_neg (hc '\\' (by decide))]

theorem reElement_special {op : ReOp} (h : specialOp p.rePeek = some op) (i : Option ℕ) :
    reElement '\\'.toNat i p = some (.ok (p.advance.reAppend op 0).1) := by
  simp [reElement, h]

theorem reElement_escape (h : specialOp p.rePeek = none) (i : Option ℕ) :
    reElement '\\'.toNat i p =
      some (.ok ((reEscChar p).2.reAppend .match (reEscChar p).1).1) := by
  simp [reElement, h]

theorem leads_special {b : UInt8} {op : ReOp} (hb : specialOp b = some op)
    (h : Stands noCase mx ops (byte '\\' :: b :: z) p) (hroom : 2 * ops.length ≤ mx)
    (i : Option ℕ) :
    ∃ q, Leads i p (some ops.length) q ∧ Stands noCase mx (ops ++ [(op, 0)]) z q := by
  obtain ⟨hc, hp⟩ := xNextChar_byte (by decide) h
  refine ⟨_, ?_, (stands_append (stands_advance hp) hroom op 0).1⟩
  rw [← h.nState]
  apply leads_element (c := '\\'.toNat) hc (by decide)
  exact reElement_special (by rw [rePeek_eq hp]; exact hb) i

theorem leads_literal {l : Literal} (hl : l.Valid specials)
    (h : Stands noCase mx ops (Literal.render l ++ z) p) (hroom : 2 * ops.length ≤ mx)
    (i : Option ℕ) : ∃ q, Leads i p (some ops.length) q ∧
      Stands noCase mx (ops ++ [(.match, (l.value noCase : ℤ))]) z q := by
  have hbackslash {t : Bytes} (ht : escaped l = some t) :
      ∃ q, Leads i p (some ops.length) q ∧
        Stands noCase mx (ops ++ [(.match, (l.value noCase : ℤ))]) z q := by
    rw [render_escaped ht, List.cons_append] at h
    obtain ⟨hc, hp⟩ := xNextChar_byte (by decide) h
    obtain ⟨hvalue, hstands, hspecial⟩ := reEscChar_escaped hl ht hp
    refine ⟨_, ?_, (stands_append hstands hroom .match _).1⟩
    rw [← h.nState]
    apply leads_element (c := '\\'.toNat) hc (by decide)
    rw [← hvalue]
    exact reElement_escape hspecial i
  cases l with
  | esc c | hex ds => exact hbackslash rfl
  | raw c =>
    obtain ⟨hc, hp⟩ := xNextChar_utf8 h
    have hne : ∀ s ∈ specials, foldWith noCase c.toNat ≠ s.toNat := by
      intro s hs
      apply fold_ne hl.2 hs
      revert s
      exact forall_of_all (by decide)
    refine ⟨_, ?_, (stands_append hp hroom .match _).1⟩
    rw [← h.nState]
    refine leads_element hc ⟨value_ne noCase hl, hne _ (by decide),
      hne _ (by decide), hne _ (by decide)⟩ ?_
    exact reElement_plain hne i _

/-- What stands for one character or one place is compiled to its code. -/
theorem leads_simple {a : Simple} (ha : a.Valid)
    (h : Stands noCase mx ops (Simple.render a ++ z) p) (hz : a = .any → z.headD 0 ≠ byte '*')
    (hroom : 2 * (ops.length + (a.code noCase).length) ≤ mx) (i : Option ℕ) :
    ∃ q, Leads i p (some ops.length) q ∧ Stands noCase mx (ops ++ a.code noCase) z q := by
  cases a with
  | lit l => exact leads_literal ha h (by omega) i
  | any =>
    obtain ⟨hc, hp⟩ := xNextChar_byte (by decide) h
    refine ⟨_, ?_, (stands_append hp (by omega) .any 0).1⟩
    rw [← h.nState]
    apply leads_element (c := '.'.toNat) hc (by decide)
    unfold reElement
    rw [if_pos rfl, rePeek_eq hp]
    exact if_neg (hz rfl)
  | cls negated m ms =>
    simp only [Simple.render, List.cons_append, List.append_assoc, List.nil_append] at h
    obtain ⟨hc, hp⟩ := xNextChar_byte (by decide) h
    obtain ⟨q, hq, hstands⟩ := reClass_render negated m ms ha
      (by simpa using hp) hroom
    refine ⟨q, ?_, hstands⟩
    rw [← h.nState]
    exact leads_element (c := '['.toNat) hc (by decide) hq
  | shorthand s =>
    have hspecial : specialOp (Shorthand.letter s) = some s.op := by
      cases s <;> decide
    exact leads_special hspecial h (by omega) i
  | boundary => exact leads_special (by decide) h (by omega) i
  | start =>
    obtain ⟨hc, hp⟩ := xNextChar_byte (by decide) h
    refine ⟨_, ?_, (stands_append hp (by omega) .atstart 0).1⟩
    rw [← h.nState]
    exact leads_element (c := '^'.toNat) hc (by decide) rfl

end Simples

section Quantifiers

variable {A B : List Instr}

theorem length_le_code {q : Quant} (hq : q.Valid) (B : List Instr) :
    B.length ≤ (q.code B).length := by
  cases q with
  | once => exact le_rfl
  | star | plus | opt =>
    simp only [Quant.code, List.length_cons, List.length_append, List.length_nil]
    omega
  | rep m n =>
    have hmn := hq.1
    have hn := hq.2
    simp only [Quant.code, List.length_append, repeated_length]
    cases m with
    | zero =>
      obtain ⟨k, rfl⟩ := Nat.exists_eq_add_of_le' hn
      simp only [List.length_cons, Nat.sub_zero, Nat.add_one_mul k]
      omega
    | succ m =>
      rw [Nat.add_one_mul m]
      omega

theorem reRepeat_render {m n : ℕ} (hq : (Quant.rep m n).Valid) (hmx : n * 2 ≤ mx)
    (h : Stands noCase mx (A ++ B) (decimal m ++
      ((if m = n then [] else byte ',' :: decimal n) ++ byte '\x7d' :: z)) p)
    (hroom : 3 * (A.length + (Quant.code B (.rep m n)).length) ≤ mx) :
    ∃ q, reRepeat p (some A.length) = .ok q ∧
      Stands noCase mx (A ++ Quant.code B (.rep m n)) z q := by
  obtain ⟨hmn, hn⟩ := hq
  obtain ⟨q, hcode, hq⟩ := stands_repeatCode hmn hn (stands_sIn h z) hroom
  refine ⟨q, ?_, hq⟩
  unfold reRepeat
  dsimp only
  rw [h.mxAlloc] at hcode
  rw [h.mxAlloc, h.sIn, number_decimal m (by omega)]
  by_cases heq : m = n
  · rw [if_pos heq, List.nil_append, number_stop (by decide)]
    dsimp only
    rw [List.headD_cons, if_neg (by decide)]
    dsimp only
    rw [List.headD_cons, if_neg (by simp), if_neg (by omega), List.tail_cons]
    exact heq ▸ hcode
  · rw [if_neg heq, List.cons_append, number_stop (by decide)]
    dsimp only
    rw [List.headD_cons, if_pos rfl, List.tail_cons, number_decimal n hmx,
      number_stop (by decide)]
    dsimp only
    rw [List.headD_cons, if_neg (by simp), if_neg (by omega), List.tail_cons]
    exact hcode

theorem reElement_star (h : Stands noCase mx (A ++ B) z p)
    (hroom : 2 * (A.length + B.length + 2) ≤ mx) :
    ∃ q, reElement '*'.toNat (some A.length) p = some (.ok q) ∧
      Stands noCase mx (A ++ Quant.code B .star) z q := by
  obtain ⟨hgoto, -⟩ := stands_insert h (by rw [List.length_append]; omega) A.length .goto
    ((p.nState : ℤ) - A.length + 1)
  rw [List.take_left, List.drop_left] at hgoto
  have hfork := (stands_append hgoto (by
    simp only [List.length_append, List.length_cons]
    omega) .fork ((A.length : ℤ) - (p.reInsert A.length .goto
      ((p.nState : ℤ) - A.length + 1)).1.nState + 1)).1
  refine ⟨_, rfl, ?_⟩
  have hback : (A.length : ℤ) - (p.reInsert A.length .goto
      ((p.nState : ℤ) - A.length + 1)).1.nState + 1 = -(B.length : ℤ) := by
    rw [hgoto.nState, List.length_append, List.length_cons]
    push_cast
    ring
  have hforth : (p.nState : ℤ) - A.length + 1 = (B.length : ℤ) + 1 := by
    rw [h.nState, List.length_append]
    push_cast
    ring
  rw [hback, hforth] at hfork
  rw [hback, hforth]
  simpa [Quant.code] using hfork

theorem reElement_plus (h : Stands noCase mx (A ++ B) z p)
    (hroom : 2 * (A.length + B.length + 1) ≤ mx) :
    ∃ q, reElement '+'.toNat (some A.length) p = some (.ok q) ∧
      Stands noCase mx (A ++ Quant.code B .plus) z q := by
  have hfork := (stands_append h (by rw [List.length_append]; omega) .fork
    ((A.length : ℤ) - p.nState)).1
  have hback : (A.length : ℤ) - p.nState = -(B.length : ℤ) := by
    rw [h.nState, List.length_append]
    push_cast
    ring
  refine ⟨_, rfl, ?_⟩
  rw [hback] at hfork ⊢
  simpa [Quant.code] using hfork

theorem reElement_opt (h : Stands noCase mx (A ++ B) z p)
    (hroom : 2 * (A.length + B.length + 1) ≤ mx) :
    ∃ q, reElement '?'.toNat (some A.length) p = some (.ok q) ∧
      Stands noCase mx (A ++ Quant.code B .opt) z q := by
  have hfork := (stands_insert h (by rw [List.length_append]; omega) A.length .fork
    ((p.nState : ℤ) - A.length + 1)).1
  have hforth : (p.nState : ℤ) - A.length + 1 = (B.length : ℤ) + 1 := by
    rw [h.nState, List.length_append]
    push_cast
    ring
  refine ⟨_, rfl, ?_⟩
  rw [List.take_left, List.drop_left] at hfork
  rw [hforth] at hfork ⊢
  simpa [Quant.code] using hfork

/-- A quantifier is compiled around the code in front of it. -/
theorem leads_quant {q : Quant} (hq : q.Valid) (hlimit : q.limit ≤ mx)
    (h : Stands noCase mx (A ++ B) (Quant.render q ++ z) p)
    (hroom : 3 * (A.length + (q.code B).length) ≤ mx) :
    ∃ j r, Leads (some A.length) p j r ∧ Stands noCase mx (A ++ q.code B) z r := by
  cases q with
  | once => exact ⟨_, p, fun _ hs => hs, h⟩
  | star =>
    obtain ⟨hc, hp⟩ := xNextChar_byte (by decide) h
    simp only [Quant.code, List.length_cons, List.length_append, List.length_nil] at hroom
    obtain ⟨r, hr, hstands⟩ := reElement_star hp (by omega)
    exact ⟨_, r, leads_element (c := '*'.toNat) hc (by decide) hr, hstands⟩
  | plus =>
    obtain ⟨hc, hp⟩ := xNextChar_byte (by decide) h
    simp only [Quant.code, List.length_cons, List.length_append, List.length_nil] at hroom
    obtain ⟨r, hr, hstands⟩ := reElement_plus hp (by omega)
    exact ⟨_, r, leads_element (c := '+'.toNat) hc (by decide) hr, hstands⟩
  | opt =>
    obtain ⟨hc, hp⟩ := xNextChar_byte (by decide) h
    simp only [Quant.code, List.length_cons] at hroom
    obtain ⟨r, hr, hstands⟩ := reElement_opt hp (by omega)
    exact ⟨_, r, leads_element (c := '?'.toNat) hc (by decide) hr, hstands⟩
  | rep m n =>
    simp only [Quant.render, List.cons_append, List.append_assoc, List.nil_append] at h
    obtain ⟨hc, hp⟩ := xNextChar_byte (by decide) h
    obtain ⟨r, hr, hstands⟩ := reRepeat_render hq hlimit hp hroom
    refine ⟨_, r, leads_element (c := '\x7b'.toNat) hc (by decide) ?_, hstands⟩
    simp [reElement, hr]

end Quantifiers

section Expressions

theorem quant_head {q : Quant} (hq : q ≠ .star) (hz : z.headD 0 ≠ byte '*') :
    (Quant.render q ++ z).headD 0 ≠ byte '*' := by
  cases q with
  | once => exact hz
  | star => exact absurd rfl hq
  | plus => exact show byte '+' ≠ byte '*' by decide
  | opt => exact show byte '?' ≠ byte '*' by decide
  | rep m n => exact show byte '\x7b' ≠ byte '*' by decide

theorem simple_head {a : Simple} (ha : a.Valid) (z : Bytes) :
    (Simple.render a ++ z).headD 0 ≠ byte '*' := by
  cases a with
  | lit l =>
    obtain ⟨b, t, hbt, hb⟩ := literal_head ha
    rw [Simple.render, hbt]
    exact hb '*' (by decide) (by decide) (by decide)
  | any => exact show byte '.' ≠ byte '*' by decide
  | cls negated m ms => exact show byte '[' ≠ byte '*' by decide
  | shorthand s => exact show byte '\\' ≠ byte '*' by decide
  | boundary => exact show byte '\\' ≠ byte '*' by decide
  | start => exact show byte '^' ≠ byte '*' by decide

/-- No string of elements begins with a star. -/
theorem str_head {s : Str} (hs : s.Valid) (hz : z.headD 0 ≠ byte '*') :
    (renderStr s ++ z).headD 0 ≠ byte '*' := by
  cases s with
  | nil => exact hz
  | simple a q s =>
    rw [renderStr, List.append_assoc]
    exact simple_head hs.1 _
  | group r q s => exact show byte '(' ≠ byte '*' by decide

theorem behind_head (hz : Behind z) : z.headD 0 ≠ byte '*' := by
  cases z with
  | nil => decide
  | cons b z =>
    obtain rfl | rfl : b = byte '|' ∨ b = byte ')' := by
      simpa [Behind] using hz
    · exact show byte '|' ≠ byte '*' by decide
    · exact show byte ')' ≠ byte '*' by decide

theorem alternatives_end (h : Stands noCase mx ops z p) (hz : z.headD 0 ≠ byte '|') (i : ℕ) :
    Alternatives i p p := by
  refine ⟨1, ?_⟩
  rw [reAlternatives, rePeek_eq h, if_neg hz]

theorem leads_eol {eol : Bool} (h : Stands noCase mx ops (eolText eol ++ z) p)
    (hroom : 2 * ops.length ≤ mx) (i : Option ℕ) :
    ∃ j q, Leads i p j q ∧ Stands noCase mx (ops ++ eolCode eol) z q := by
  cases eol with
  | false => exact ⟨i, p, fun _ hs => hs, by simpa [eolText, eolCode] using h⟩
  | true =>
    obtain ⟨hc, hp⟩ := xNextChar_byte (by decide) h
    exact ⟨_, _, leads_element (c := '$'.toNat) hc (by decide) rfl,
      (stands_append hp hroom .match 0).1⟩

theorem alternatives_step {B C : List Instr} {t : Bytes}
    (h : Stands noCase mx (ops ++ B) (byte '|' :: t) p)
    (hroom : 2 * (ops.length + B.length + C.length + 2) ≤ mx)
    (hstring : ∀ s, Stands noCase mx (ops ++ (.fork, (B.length : ℤ) + 2) :: B ++ [(.goto, 0)]) t s →
      ∃ r, Elements none s r ∧ Stands noCase mx
        (ops ++ (.fork, (B.length : ℤ) + 2) :: B ++ [(.goto, 0)] ++ C) z r) :
    ∃ r, Stands noCase mx (ops ++ altCode B C) z r ∧
      ∀ q, Alternatives ops.length r q → Alternatives ops.length p q := by
  have hforth : (p.nState : ℤ) + 2 - ops.length = (B.length : ℤ) + 2 := by
    rw [h.nState, List.length_append]
    push_cast
    ring
  have hfork := (stands_insert h (by rw [List.length_append]; omega) ops.length .fork
    ((p.nState : ℤ) + 2 - ops.length)).1
  rw [List.take_left, List.drop_left, hforth] at hfork
  obtain ⟨hgoto, hiGoto⟩ := stands_append hfork (by
    simp only [List.length_append, List.length_cons]
    omega) .goto 0
  obtain ⟨r, ⟨f, hf⟩, hr⟩ := hstring _ (stands_advance hgoto)
  have hlen := hr.nState
  have hover : (r.nState : ℤ) - (ops ++ (.fork, (B.length : ℤ) + 2) :: B).length =
      (C.length : ℤ) + 1 := by
    rw [hlen]
    simp only [List.length_append, List.length_cons, List.length_nil]
    push_cast
    ring
  have hset : Stands noCase mx (ops ++ altCode B C) z
      (r.setArg (ops ++ (.fork, (B.length : ℤ) + 2) :: B).length ((C.length : ℤ) + 1)) := by
    rw [List.append_assoc _ [_] C, List.singleton_append] at hr
    simpa [altCode] using stands_setArg hr ((C.length : ℤ) + 1)
  refine ⟨_, hset, ?_⟩
  rintro s ⟨g, hg⟩
  refine ⟨max f g + 1, ?_⟩
  rw [reAlternatives, rePeek_eq h, List.headD_cons, if_pos rfl]
  dsimp only
  rw [hforth, hiGoto, (subcompile_mono (le_max_left f g)).2.2 _ _ _ hf]
  change reAlternatives (max f g) ops.length (r.setArg _ _) = _
  rw [hover]
  exact (subcompile_mono (le_max_right f g)).2.1 _ _ _ hg

theorem elements_leads {i j : Option ℕ} {q : ReCompiled} (h : Leads i p j q)
    (hq : Stands noCase mx ops z q) (hz : Behind z) :
    ∃ r, Elements i p r ∧ Stands noCase mx ops z r := by
  obtain ⟨r, hr, hstands⟩ := elements_end hq hz j
  exact ⟨r, h r hr, hstands⟩

theorem length_simple_le (noCase : Bool) {a : Simple} {q : Quant} (hq : q.Valid)
    (h : ¬(a = .any ∧ q = .star)) :
    (a.code noCase).length ≤ (simpleCode noCase a q).length ∧
      simpleCode noCase a q = q.code (a.code noCase) := by
  rw [simpleCode, if_neg h]
  exact ⟨length_le_code hq _, rfl⟩

theorem leads_simpleCode {a : Simple} {q : Quant} (ha : a.Valid) (hq : q.Valid)
    (hlimit : q.limit ≤ mx)
    (h : Stands noCase mx ops (Simple.render a ++ (Quant.render q ++ z)) p)
    (hz : z.headD 0 ≠ byte '*') (hroom : 3 * (ops.length + (simpleCode noCase a q).length) ≤ mx)
    (i : Option ℕ) :
    ∃ j r, Leads i p j r ∧ Stands noCase mx (ops ++ simpleCode noCase a q) z r := by
  by_cases hany : a = .any ∧ q = .star
  · obtain ⟨rfl, rfl⟩ := hany
    obtain ⟨hc, hp⟩ := xNextChar_byte (by decide) h
    refine ⟨_, _, leads_element (c := '.'.toNat) hc (by decide) ?_,
      stands_advance (stands_append hp (by omega) .anystar 0).1⟩
    unfold reElement
    rw [if_pos rfl, rePeek_eq hp]
    exact if_pos rfl
  · obtain ⟨hle, hcode⟩ := length_simple_le noCase hq hany
    have hnext : a = .any → (Quant.render q ++ z).headD 0 ≠ byte '*' :=
      fun hdot => quant_head (fun hstar => hany ⟨hdot, hstar⟩) hz
    obtain ⟨s, hs, hstands⟩ := leads_simple ha h hnext (by omega) i
    rw [hcode] at hroom ⊢
    obtain ⟨j, r, hr, hstands'⟩ := leads_quant hq hlimit hstands hroom
    exact ⟨j, r, leads_trans hs hr, hstands'⟩

/-- A rendered string of elements is compiled to its code. -/
def Reads (noCase : Bool) (mx : ℕ) (s : Str) : Prop := ∀ ops z p i,
  Stands noCase mx ops (renderStr s ++ z) p → z.headD 0 ≠ byte '*' →
  3 * (ops.length + (s.code noCase).length) ≤ mx →
  ∃ j q, Leads i p j q ∧ Stands noCase mx (ops ++ s.code noCase) z q

/-- A rendered expression is compiled to its code, and whatever alternatives follow. -/
def Subreads (noCase : Bool) (mx : ℕ) (r : Re) : Prop := ∀ ops z p,
  Stands noCase mx ops (renderRe r ++ z) p → Behind z →
  3 * (ops.length + (r.code noCase).length) ≤ mx →
  ∃ q, (∀ t, Alternatives ops.length q t → Subcompiles p t) ∧
    Stands noCase mx (ops ++ r.code noCase) z q

theorem elements_str {s : Str} (hs : Reads noCase mx s) (eol : Bool)
    (h : Stands noCase mx ops (renderStr s ++ (eolText eol ++ z)) p) (hz : Behind z)
    (hroom : 3 * (ops.length + (s.code noCase ++ eolCode eol).length) ≤ mx) :
    ∃ q, Elements none p q ∧ Stands noCase mx (ops ++ (s.code noCase ++ eolCode eol)) z q := by
  rw [List.length_append] at hroom
  have hnext : (eolText eol ++ z).headD 0 ≠ byte '*' := by
    cases eol with
    | false => exact behind_head hz
    | true => exact show byte '$' ≠ byte '*' by decide
  obtain ⟨j, q, hq, hstands⟩ := hs ops _ p none h hnext (by omega)
  obtain ⟨k, r, hr, hstands'⟩ := leads_eol hstands (by rw [List.length_append]; omega) j
  rw [List.append_assoc] at hstands'
  exact elements_leads (leads_trans hq hr) hstands' hz

theorem subreads_str {s : Str} (hs : Reads noCase mx s) (eol : Bool) :
    Subreads noCase mx (.str s eol) := by
  intro ops z p h hz hroom
  rw [renderRe, List.append_assoc] at h
  obtain ⟨q, hq, hstands⟩ := elements_str hs eol h hz hroom
  refine ⟨q, ?_, hstands⟩
  intro t ht
  rw [← h.nState] at ht
  exact subcompiles_intro hq ht

theorem subreads_alt {r : Re} {s : Str} (hr : Subreads noCase mx r) (hs : Reads noCase mx s)
    (eol : Bool) : Subreads noCase mx (.alt r s eol) := by
  intro ops z p h hz hroom
  simp only [renderRe, List.cons_append, List.append_assoc] at h
  simp only [Re.code, altCode, List.length_cons, List.length_append] at hroom
  obtain ⟨q, hq, hstands⟩ := hr ops _ p h (.inr (.inl rfl)) (by omega)
  obtain ⟨t, ht, hstep⟩ := alternatives_step (C := s.code noCase ++ eolCode eol) hstands
    (by rw [List.length_append]; omega) (fun u hu => elements_str hs eol hu hz (by
      simp only [List.length_append, List.length_cons, List.length_nil]
      omega))
  exact ⟨t, fun u hu => hq u (hstep u hu), ht⟩

theorem reads_simple {a : Simple} {q : Quant} {s : Str} (ha : a.Valid) (hq : q.Valid)
    (hlimit : q.limit ≤ mx) (hvalid : s.Valid) (hs : Reads noCase mx s) :
    Reads noCase mx (.simple a q s) := by
  intro ops z p i h hz hroom
  rw [renderStr, List.append_assoc, List.append_assoc] at h
  rw [Str.code, List.length_append] at hroom
  obtain ⟨j, r, hr, hstands⟩ := leads_simpleCode ha hq hlimit h (str_head hvalid hz) (by omega) i
  obtain ⟨k, t, ht, hstands'⟩ := hs _ z r j hstands hz (by
    rw [List.length_append]
    omega)
  rw [List.append_assoc] at hstands'
  exact ⟨k, t, leads_trans hr ht, hstands'⟩

theorem reads_group {r : Re} {q : Quant} {s : Str} (hr : Subreads noCase mx r)
    (hq : q.Valid) (hlimit : q.limit ≤ mx) (hs : Reads noCase mx s) :
    Reads noCase mx (.group r q s) := by
  intro ops z p i h hz hroom
  simp only [renderStr, List.cons_append, List.append_assoc] at h
  rw [Str.code, List.length_append] at hroom
  have hle := length_le_code hq (r.code noCase)
  obtain ⟨hc, hp⟩ := xNextChar_byte (by decide) h
  obtain ⟨t, ht, hstands⟩ := hr ops _ _ hp (.inr (.inr rfl)) (by omega)
  have hsub := ht _ (alternatives_end hstands (show byte ')' ≠ byte '|' by decide) _)
  have hgroup : Leads i p (some ops.length) t.advance := by
    rw [← h.nState]
    exact leads_group hc hsub (by rw [rePeek_eq hstands]; rfl)
  obtain ⟨j, u, hu, hstands'⟩ := leads_quant hq hlimit (stands_advance hstands) (by omega)
  obtain ⟨k, v, hv, hstands''⟩ := hs _ z u j hstands' hz (by
    rw [List.length_append]
    omega)
  rw [List.append_assoc] at hstands''
  exact ⟨k, v, leads_trans hgroup (leads_trans hu hv), hstands''⟩

mutual

theorem subreads_re (noCase : Bool) {mx : ℕ} : (r : Re) → r.Valid → r.limit ≤ mx →
    Subreads noCase mx r
  | .str s eol, hvalid, hlimit => subreads_str (reads_str noCase s hvalid hlimit) eol
  | .alt r s eol, hvalid, hlimit =>
    have hlimit := max_le_iff.mp hlimit
    subreads_alt (subreads_re noCase r hvalid.1 hlimit.1)
      (reads_str noCase s hvalid.2 hlimit.2) eol

theorem reads_str (noCase : Bool) {mx : ℕ} : (s : Str) → s.Valid → s.limit ≤ mx →
    Reads noCase mx s
  | .nil, _, _ => fun ops _ p i h _ _ => ⟨i, p, fun _ hs => hs, by
      rw [Str.code, List.append_nil]
      exact h⟩
  | .simple _ _ s, ⟨ha, hq, hs⟩, hlimit =>
    have hlimit := max_le_iff.mp hlimit
    reads_simple ha hq hlimit.1 hs (reads_str noCase s hs hlimit.2)
  | .group r _ s, ⟨hr, hq, hs⟩, hlimit =>
    have hlimit := max_le_iff.mp hlimit
    have hrest := max_le_iff.mp hlimit.2
    reads_group (subreads_re noCase r hr.1 hlimit.1) hq hrest.1
      (reads_str noCase s hs hrest.2)

end

end Expressions

end RSQLCipher.RegexpParse
