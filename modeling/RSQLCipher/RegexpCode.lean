import RSQLCipher.RegexpMeaning

namespace RSQLCipher.RegexpCode

open RSQLCipher.RegexpCompile
open RSQLCipher.RegexpMatch
open RSQLCipher.RegexpStates
open RSQLCipher.RegexpMeaning

/-- Code lies at a place of a program, and the program goes on behind it. -/
def At (ops : List Instr) (o : ℕ) (B : List Instr) : Prop :=
  B <+: ops.drop o ∧ o + B.length < ops.length

section At

variable {ops B C : List Instr} {o : ℕ} {i : Instr}

theorem at_append (h : At ops o (B ++ C)) : At ops o B ∧ At ops (o + B.length) C := by
  obtain ⟨⟨rest, hrest⟩, hlen⟩ := h
  rw [List.length_append] at hlen
  refine ⟨⟨⟨C ++ rest, by rw [← hrest, List.append_assoc]⟩, by omega⟩, ⟨rest, ?_⟩, by omega⟩
  rw [← List.drop_drop, ← hrest, List.append_assoc, List.drop_left]

theorem at_cons (h : At ops o (i :: B)) : ops[o]? = some i ∧ At ops (o + 1) B := by
  obtain ⟨-, hB⟩ := at_append (B := [i]) (C := B) h
  refine ⟨?_, hB⟩
  obtain ⟨⟨rest, hrest⟩, -⟩ := h
  rw [← List.head?_drop, ← hrest]
  rfl

end At

/-- Code does what a relation between places says: whatever is accepted from its start is
accepted from behind it, in no more steps, at a place the relation leads to; and back. -/
structure Carries (ops : List Instr) (o : ℕ) (B : List Instr) (R : Place → Place → Prop) :
    Prop where
  sound : ∀ n p w, 0 ∉ w → Accepts ops n p (w ++ [0]) o →
    ∃ m τ, m ≤ n ∧ R (p, w) τ ∧ 0 ∉ τ.2 ∧ Accepts ops m τ.1 (τ.2 ++ [0]) (o + B.length)
  complete : ∀ p w τ, R (p, w) τ → Reaches ops τ.1 (τ.2 ++ [0]) (o + B.length) →
    Reaches ops p (w ++ [0]) o

def Implements (B : List Instr) (R : Place → Place → Prop) : Prop :=
  ∀ ops o, At ops o B → Carries ops o B R

section Steps

variable {ops : List Instr} {x p : ℕ} {w : List ℕ} {here there : List ℕ}

theorem accepts_goto {arg : ℤ} {y : ℕ} (hx : ops[x]? = some (.goto, arg))
    (hy : (x : ℤ) + arg = y) (hylt : y < ops.length) (n : ℕ) :
    Accepts ops (n + 1) p (w ++ [0]) x ↔ Accepts ops n p (w ++ [0]) y := by
  cases w with
  | nil => simp [accepts_step (visit_goto hx hy hylt)]
  | cons c w => simp [accepts_step (visit_goto hx hy hylt)]

theorem accepts_fork {arg : ℤ} {y : ℕ} (hx : ops[x]? = some (.fork, arg))
    (hy : (x : ℤ) + arg = y) (hylt : y < ops.length) (hnext : x + 1 < ops.length) (n : ℕ) :
    Accepts ops (n + 1) p (w ++ [0]) x ↔
      Accepts ops n p (w ++ [0]) y ∨ Accepts ops n p (w ++ [0]) (x + 1) := by
  cases w with
  | nil => simp [accepts_step (visit_fork hx hy hylt hnext)]
  | cons c w => simp [accepts_step (visit_fork hx hy hylt hnext)]

theorem reaches_goto {arg : ℤ} {y : ℕ} (hx : ops[x]? = some (.goto, arg))
    (hy : (x : ℤ) + arg = y) (hylt : y < ops.length) (h : Reaches ops p (w ++ [0]) y) :
    Reaches ops p (w ++ [0]) x := by
  obtain ⟨n, hn⟩ := h
  exact ⟨n + 1, (accepts_goto hx hy hylt n).mpr hn⟩

theorem reaches_fork {arg : ℤ} {y : ℕ} (hx : ops[x]? = some (.fork, arg))
    (hy : (x : ℤ) + arg = y) (hylt : y < ops.length) (hnext : x + 1 < ops.length)
    (h : Reaches ops p (w ++ [0]) y ∨ Reaches ops p (w ++ [0]) (x + 1)) :
    Reaches ops p (w ++ [0]) x := by
  obtain ⟨n, hn⟩ | ⟨n, hn⟩ := h
  · exact ⟨n + 1, (accepts_fork hx hy hylt hnext n).mpr (.inl hn)⟩
  · exact ⟨n + 1, (accepts_fork hx hy hylt hnext n).mpr (.inr hn)⟩

end Steps

section Rules

variable {B C : List Instr} {R S : Place → Place → Prop}

theorem implements_congr (h : Implements B R) (hRS : ∀ σ τ, R σ τ ↔ S σ τ) : Implements B S := by
  have : R = S := by
    funext σ τ
    exact propext (hRS σ τ)
  exact this ▸ h

theorem implements_nil : Implements [] Eq := by
  intro ops o _
  refine ⟨?_, ?_⟩
  · intro n p w hw h
    exact ⟨n, (p, w), le_rfl, rfl, hw, h⟩
  · rintro p w τ rfl h
    exact h

theorem implements_append (hB : Implements B R) (hC : Implements C S) :
    Implements (B ++ C) (Relation.Comp R S) := by
  intro ops o hat
  obtain ⟨hatB, hatC⟩ := at_append hat
  have hB := hB ops o hatB
  have hC := hC ops _ hatC
  have hlen : o + (B ++ C).length = o + B.length + C.length := by
    rw [List.length_append, Nat.add_assoc]
  refine ⟨?_, ?_⟩
  · intro n p w hw h
    obtain ⟨m, σ, hm, hR, hσ, h⟩ := hB.sound n p w hw h
    obtain ⟨m', τ, hm', hS, hτ, h⟩ := hC.sound m σ.1 σ.2 hσ h
    exact ⟨m', τ, hm'.trans hm, ⟨σ, hR, hS⟩, hτ, hlen ▸ h⟩
  · rintro p w τ ⟨σ, hR, hS⟩ h
    rw [hlen] at h
    exact hB.complete p w σ hR (hC.complete σ.1 σ.2 τ hS h)

theorem implements_power (hB : Implements B R) (k : ℕ) :
    Implements (repeated B k) (power R k) := by
  induction k with
  | zero => exact implements_nil
  | succ k ih =>
    have : repeated B (k + 1) = B ++ repeated B k := by
      simp [repeated, List.replicate_succ]
    rw [this]
    exact implements_append hB ih

section Loop

variable {ops : List Instr} {o : ℕ}

/-- A fork that goes back over the code in front of it repeats it, from the fork on. -/
theorem loop_sound (hat : At ops o (B ++ [(.fork, -(B.length : ℤ))])) (hB : Implements B R)
    (n p : ℕ) (w : List ℕ) (hw : 0 ∉ w) (h : Accepts ops n p (w ++ [0]) (o + B.length)) :
    ∃ m τ, m ≤ n ∧ Relation.ReflTransGen R (p, w) τ ∧ 0 ∉ τ.2 ∧
      Accepts ops m τ.1 (τ.2 ++ [0]) (o + B.length + 1) := by
  obtain ⟨hatB, hatF⟩ := at_append hat
  have hfork := (at_cons hatF).1
  have hlt := hatF.2
  rw [List.length_singleton] at hlt
  induction n using Nat.strong_induction_on generalizing p w with
  | _ n ih =>
    cases n with
    | zero => exact h.elim
    | succ n =>
      obtain h | h := (accepts_fork hfork (y := o) (by omega) (by omega) hlt n).mp h
      · obtain ⟨m, σ, hm, hR, hσ, h⟩ := (hB ops o hatB).sound n p w hw h
        obtain ⟨m', τ, hm', hrest, hτ, h⟩ := ih m (by omega) σ.1 σ.2 hσ h
        exact ⟨m', τ, by omega, .head hR hrest, hτ, h⟩
      · exact ⟨n, (p, w), Nat.le_succ n, .refl, hw, h⟩

theorem loop_complete (hat : At ops o (B ++ [(.fork, -(B.length : ℤ))])) (hB : Implements B R)
    {σ τ : Place} (h : Relation.ReflTransGen R σ τ)
    (hτ : Reaches ops τ.1 (τ.2 ++ [0]) (o + B.length + 1)) :
    Reaches ops σ.1 (σ.2 ++ [0]) (o + B.length) := by
  obtain ⟨hatB, hatF⟩ := at_append hat
  have hfork := (at_cons hatF).1
  have hlt := hatF.2
  rw [List.length_singleton] at hlt
  induction h using Relation.ReflTransGen.head_induction_on with
  | refl => exact reaches_fork hfork (y := o) (by omega) (by omega) hlt (.inr hτ)
  | head hR _ ih =>
    apply reaches_fork hfork (y := o) (by omega) (by omega) hlt
    exact .inl ((hB ops o hatB).complete _ _ _ hR ih)

end Loop

theorem implements_plus (hB : Implements B R) :
    Implements (Quant.code B .plus) (Relation.TransGen R) := by
  intro ops o hat
  have hatB := (at_append hat).1
  have hlen : o + (Quant.code B .plus).length = o + B.length + 1 := by
    rw [Quant.code, List.length_append, List.length_singleton, Nat.add_assoc]
  refine ⟨?_, ?_⟩
  · intro n p w hw h
    obtain ⟨m, σ, hm, hR, hσ, h⟩ := (hB ops o hatB).sound n p w hw h
    obtain ⟨m', τ, hm', hrest, hτ, h⟩ := loop_sound hat hB m σ.1 σ.2 hσ h
    exact ⟨m', τ, hm'.trans hm, .head' hR hrest, hτ, hlen ▸ h⟩
  · intro p w τ hR h
    rw [hlen] at h
    obtain ⟨σ, hfirst, hrest⟩ := Relation.TransGen.head'_iff.mp hR
    exact (hB ops o hatB).complete p w σ hfirst (loop_complete hat hB hrest h)

theorem implements_star (hB : Implements B R) :
    Implements (Quant.code B .star) (Relation.ReflTransGen R) := by
  intro ops o hat
  obtain ⟨hgoto, hat'⟩ := at_cons hat
  have hlen : o + (Quant.code B .star).length = o + 1 + B.length + 1 := by
    simp only [Quant.code, List.length_cons, List.length_append, List.length_nil]
    omega
  have hlt := (at_append hat').2.2
  have htarget : ((o : ℕ) : ℤ) + ((B.length : ℤ) + 1) = (o + 1 + B.length : ℕ) := by
    push_cast
    ring
  have hbound : o + 1 + B.length < ops.length := by
    rw [List.length_singleton] at hlt
    omega
  refine ⟨?_, ?_⟩
  · intro n p w hw h
    cases n with
    | zero => exact h.elim
    | succ n =>
      have h := (accepts_goto hgoto htarget hbound n).mp h
      obtain ⟨m, τ, hm, hR, hτ, h⟩ := loop_sound hat' hB n p w hw h
      exact ⟨m, τ, hm.trans (Nat.le_succ n), hR, hτ, hlen ▸ h⟩
  · intro p w τ hR h
    rw [hlen] at h
    exact reaches_goto hgoto htarget hbound (loop_complete hat' hB hR h)

theorem implements_opt (hB : Implements B R) :
    Implements (Quant.code B .opt) (Relation.ReflGen R) := by
  intro ops o hat
  obtain ⟨hfork, hatB⟩ := at_cons hat
  have hlen : o + (Quant.code B .opt).length = o + 1 + B.length := by
    simp only [Quant.code, List.length_cons]
    omega
  have hbound := hat.2
  rw [hlen] at hbound
  have htarget : ((o : ℕ) : ℤ) + ((B.length : ℤ) + 1) = (o + 1 + B.length : ℕ) := by
    push_cast
    ring
  refine ⟨?_, ?_⟩
  · intro n p w hw h
    rw [hlen]
    cases n with
    | zero => exact h.elim
    | succ n =>
      obtain h | h := (accepts_fork hfork htarget hbound (by omega) n).mp h
      · exact ⟨n, (p, w), Nat.le_succ n, .refl, hw, h⟩
      · obtain ⟨m, τ, hm, hR, hτ, h⟩ := (hB ops _ hatB).sound n p w hw h
        exact ⟨m, τ, hm.trans (Nat.le_succ n), .single hR, hτ, h⟩
  · intro p w τ hR h
    rw [hlen] at h
    apply reaches_fork hfork htarget hbound (by omega)
    cases hR with
    | refl => exact .inl h
    | single hR => exact .inr ((hB ops _ hatB).complete p w τ hR h)

theorem power_add (R : Place → Place → Prop) (m k : ℕ) (σ τ : Place) :
    power R (m + k) σ τ ↔ ∃ ρ, power R m σ ρ ∧ power R k ρ τ := by
  induction m generalizing σ with
  | zero => simp [power]
  | succ m ih =>
    rw [Nat.succ_add]
    constructor
    · rintro ⟨ρ, hR, h⟩
      obtain ⟨ρ', h, h'⟩ := (ih ρ).mp h
      exact ⟨ρ', ⟨ρ, hR, h⟩, h'⟩
    · rintro ⟨ρ', ⟨ρ, hR, h⟩, h'⟩
      exact ⟨ρ, hR, (ih ρ).mpr ⟨ρ', h, h'⟩⟩

theorem power_reflGen (R : Place → Place → Prop) (k : ℕ) (σ τ : Place) :
    power (Relation.ReflGen R) k σ τ ↔ ∃ i ≤ k, power R i σ τ := by
  induction k generalizing σ with
  | zero => simp [power]
  | succ k ih =>
    constructor
    · rintro ⟨ρ, hR, h⟩
      obtain ⟨i, hi, h⟩ := (ih ρ).mp h
      cases hR with
      | refl => exact ⟨i, hi.trans (Nat.le_succ k), h⟩
      | single hR => exact ⟨i + 1, Nat.succ_le_succ hi, ρ, hR, h⟩
    · rintro ⟨i, hi, h⟩
      cases i with
      | zero => exact ⟨σ, .refl, (ih σ).mpr ⟨0, Nat.zero_le k, h⟩⟩
      | succ i =>
        obtain ⟨ρ, hR, h⟩ := h
        exact ⟨ρ, .single hR, (ih ρ).mpr ⟨i, Nat.le_of_succ_le_succ hi, h⟩⟩

theorem implements_rep (hB : Implements B R) {m n : ℕ} (hmn : m ≤ n) :
    Implements (Quant.code B (.rep m n)) (Quant.means R (.rep m n)) := by
  apply implements_congr (implements_append (implements_power hB m)
    (implements_power (implements_opt hB) (n - m)))
  intro σ τ
  constructor
  · rintro ⟨ρ, hm, hopt⟩
    obtain ⟨i, hi, h⟩ := (power_reflGen R _ ρ τ).mp hopt
    exact ⟨m + i, Nat.le_add_right m i, by omega, (power_add R m i σ τ).mpr ⟨ρ, hm, h⟩⟩
  · rintro ⟨k, hmk, hkn, h⟩
    obtain ⟨i, rfl⟩ := Nat.exists_eq_add_of_le hmk
    obtain ⟨ρ, hm, h⟩ := (power_add R m i σ τ).mp h
    exact ⟨ρ, hm, (power_reflGen R _ ρ τ).mpr ⟨i, by omega, h⟩⟩

theorem implements_quant (hB : Implements B R) {q : Quant} (hq : ∀ m n, q = .rep m n → m ≤ n) :
    Implements (q.code B) (q.means R) := by
  cases q with
  | once => exact hB
  | star => exact implements_star hB
  | plus => exact implements_plus hB
  | opt => exact implements_opt hB
  | rep m n => exact implements_rep hB (hq m n rfl)

section Alternatives

variable {ops : List Instr} {o : ℕ}

/-- The parts of the code of two alternatives: the fork leads to both sides, and the jump
behind the first side leads to the end. -/
structure AltAt (ops : List Instr) (o : ℕ) (B C : List Instr) (e : ℕ) : Prop where
  left : At ops (o + 1) B
  right : At ops (o + 1 + B.length + 1) C
  fork : ∀ n p w, Accepts ops (n + 1) p (w ++ [0]) o ↔
    Accepts ops n p (w ++ [0]) (o + 1 + B.length + 1) ∨ Accepts ops n p (w ++ [0]) (o + 1)
  past : Goto ops (o + 1 + B.length) e
  goto : ∀ n p w, Accepts ops (n + 1) p (w ++ [0]) (o + 1 + B.length) ↔
    Accepts ops n p (w ++ [0]) e
  end_eq : e = o + 1 + B.length + 1 + C.length

theorem altAt (hat : At ops o (altCode B C)) : AltAt ops o B C (o + (altCode B C).length) := by
  obtain ⟨hfork, hat'⟩ := at_cons hat
  obtain ⟨hatB, hat''⟩ := at_append hat'
  obtain ⟨hgoto, hatC⟩ := at_cons hat''
  have hlen : o + (altCode B C).length = o + 1 + B.length + 1 + C.length := by
    simp only [altCode, List.length_cons, List.length_append]
    omega
  have hbound := hat.2
  have hright : ((o : ℕ) : ℤ) + ((B.length : ℤ) + 2) = (o + 1 + B.length + 1 : ℕ) := by
    push_cast
    ring
  have hpast : ((o + 1 + B.length : ℕ) : ℤ) + ((C.length : ℤ) + 1) =
      (o + (altCode B C).length : ℕ) := by
    rw [hlen]
    push_cast
    ring
  refine ⟨hatB, hatC, ?_, ⟨_, hgoto, jump_eq hpast hbound⟩, ?_, hlen⟩
  · intro n p w
    exact accepts_fork hfork hright (by omega) (by omega) n
  · intro n p w
    exact accepts_goto hgoto hpast hbound n

end Alternatives

theorem implements_alt (hB : Implements B R) (hC : Implements C S) :
    Implements (altCode B C) fun σ τ => R σ τ ∨ S σ τ := by
  intro ops o hat
  obtain ⟨hleft, hright, hfork, -, hgoto, hend⟩ := altAt hat
  refine ⟨?_, ?_⟩
  · intro n p w hw h
    cases n with
    | zero => exact h.elim
    | succ n =>
      obtain h | h := (hfork n p w).mp h
      · obtain ⟨m, τ, hm, hS, hτ, h⟩ := (hC ops _ hright).sound n p w hw h
        exact ⟨m, τ, hm.trans (Nat.le_succ n), .inr hS, hτ, hend ▸ h⟩
      · obtain ⟨m, τ, hm, hR, hτ, h⟩ := (hB ops _ hleft).sound n p w hw h
        cases m with
        | zero => exact h.elim
        | succ m => exact ⟨m, τ, by omega, .inl hR, hτ, (hgoto m τ.1 τ.2).mp h⟩
  · intro p w τ hRS h
    obtain hR | hS := hRS
    · obtain ⟨m, hm⟩ := h
      obtain ⟨n, hn⟩ := (hB ops _ hleft).complete p w τ hR ⟨m + 1, (hgoto m τ.1 τ.2).mpr hm⟩
      exact ⟨n + 1, (hfork n p w).mpr (.inr hn)⟩
    · obtain ⟨n, hn⟩ := (hC ops _ hright).complete p w τ hS (hend ▸ h)
      exact ⟨n + 1, (hfork n p w).mpr (.inl hn)⟩

/-- Code that takes a character at once, and goes on behind itself. -/
theorem implements_takes {test : ℕ → Prop} (h : ∀ ops o, At ops o B → ∀ p c,
    ∃ b, visit ops p c o = some (.go [] (if b then [o + B.length] else [])) ∧
      (b = true ↔ c ≠ 0 ∧ test c)) : Implements B (takes test) := by
  intro ops o hat
  refine ⟨?_, ?_⟩
  · intro n p w hw hacc
    cases n with
    | zero => exact hacc.elim
    | succ n =>
      cases w with
      | nil =>
        obtain ⟨b, hvisit, hiff⟩ := h ops o hat p 0
        rw [List.nil_append, accepts_step hvisit] at hacc
        cases b with
        | false => simp at hacc
        | true => exact absurd rfl (hiff.mp rfl).1
      | cons c w =>
        rw [List.mem_cons, not_or] at hw
        obtain ⟨b, hvisit, hiff⟩ := h ops o hat p c
        rw [List.cons_append, accepts_step hvisit] at hacc
        cases b with
        | false => simp at hacc
        | true =>
          obtain ⟨hc, ht⟩ := hiff.mp rfl
          refine ⟨n, (c, w), Nat.le_succ n, ⟨c, w, rfl, hc, ht, rfl⟩, hw.2, ?_⟩
          simpa using hacc
  · rintro p w τ ⟨c, w', rfl, hc, ht, rfl⟩ hreach
    obtain ⟨b, hvisit, hiff⟩ := h ops o hat p c
    obtain rfl := hiff.mpr ⟨hc, ht⟩
    rw [List.cons_append, reaches_step hvisit]
    right
    simpa using hreach

theorem implements_char {o : Instr} {test : ℕ → Prop}
    (htest : ∀ c, ∃ b, charTest c o = some b ∧ (b = true ↔ c ≠ 0 ∧ test c)) :
    Implements [o] (takes test) := by
  apply implements_takes
  intro ops x hat p c
  obtain ⟨b, hb, hiff⟩ := htest c
  exact ⟨b, visit_char (at_cons hat).1 hb hat.2, hiff⟩

/-- Code of one instruction that looks at the place it is at. -/
theorem implements_place {o : Instr} {test : Place → Prop} (hchar : ∀ c, charTest c o = none)
    (htest : ∀ p w, ∃ b, placeTest p (w.headD 0) o = some b ∧ (b = true ↔ test (p, w))) :
    Implements [o] fun σ τ => σ = τ ∧ test σ := by
  intro ops x hat
  obtain ⟨hx, -⟩ := at_cons hat
  have hnext : x + 1 < ops.length := hat.2
  have hhead (w : List ℕ) : ∃ cs, w ++ [0] = w.headD 0 :: cs := by
    cases w with
    | nil => exact ⟨[], rfl⟩
    | cons c w => exact ⟨w ++ [0], rfl⟩
  refine ⟨?_, ?_⟩
  · intro n p w hw h
    cases n with
    | zero => exact h.elim
    | succ n =>
      obtain ⟨b, hb, hiff⟩ := htest p w
      obtain ⟨cs, hcs⟩ := hhead w
      rw [hcs, accepts_step (visit_place hx (hchar _) hb hnext), ← hcs] at h
      cases b with
      | false => simp at h
      | true =>
        refine ⟨n, (p, w), Nat.le_succ n, ⟨rfl, hiff.mp rfl⟩, hw, ?_⟩
        simpa using h
  · rintro p w τ ⟨rfl, ht⟩ h
    obtain ⟨b, hb, hiff⟩ := htest p w
    obtain rfl := hiff.mpr ht
    obtain ⟨cs, hcs⟩ := hhead w
    rw [hcs, reaches_step (visit_place hx (hchar _) hb hnext), ← hcs]
    left
    simpa using h

/-- The instruction for any text at all. -/
theorem implements_anystar (arg : ℤ) :
    Implements [(.anystar, arg)] (Relation.ReflTransGen (takes fun _ => True)) := by
  intro ops x hat
  obtain ⟨hx, -⟩ := at_cons hat
  have hnext : x + 1 < ops.length := hat.2
  refine ⟨?_, ?_⟩
  · intro n p w hw h
    induction n generalizing p w with
    | zero => exact h.elim
    | succ n ih =>
      cases w with
      | nil =>
        rw [List.nil_append, accepts_step (visit_anystar hx hnext)] at h
        simp only [List.mem_singleton, exists_eq_left] at h
        obtain h | h := h
        · exact ⟨n, (p, []), Nat.le_succ n, .refl, hw, h⟩
        · exact absurd ⟨n, h⟩ (not_reaches_nil hx (by simp) (by simp))
      | cons c w =>
        rw [List.cons_append, accepts_step (visit_anystar hx hnext)] at h
        simp only [List.mem_singleton, exists_eq_left] at h
        rw [List.mem_cons, not_or] at hw
        obtain h | h := h
        · exact ⟨n, (p, c :: w), Nat.le_succ n, .refl, by simpa using hw, h⟩
        · obtain ⟨m, τ, hm, hR, hτ, h⟩ := ih c w hw.2 h
          refine ⟨m, τ, hm.trans (Nat.le_succ n), .head ?_ hR, hτ, h⟩
          exact ⟨c, w, rfl, Ne.symm hw.1, trivial, rfl⟩
  · intro p w τ hR h
    generalize hσ : ((p, w) : Place) = σ at hR
    induction hR using Relation.ReflTransGen.head_induction_on generalizing p w with
    | refl =>
      subst hσ
      obtain ⟨c, cs, hcs⟩ : ∃ c cs, w ++ [0] = c :: cs := by
        cases w with
        | nil => exact ⟨0, [], rfl⟩
        | cons c w => exact ⟨c, w ++ [0], rfl⟩
      rw [hcs, reaches_step (visit_anystar hx hnext), ← hcs]
      left
      simpa using h
    | head hstep _ ih =>
      subst hσ
      obtain ⟨c, w', hw', -, -, rfl⟩ := hstep
      dsimp only at hw'
      subst hw'
      rw [List.cons_append, reaches_step (visit_anystar hx hnext)]
      right
      simpa using ih c w' rfl

/-- The members of a class, searched one after the other. -/
theorem classHit_members {noCase : Bool} {ops : List Instr} {x c : ℕ} {n : ℤ} (ms : List Member)
    (j fuel : ℕ) (hat : At ops (x + j) (ms.flatMap (Member.code noCase)))
    (hn : n = (j : ℤ) + (ms.flatMap (Member.code noCase)).length)
    (hfuel : (ms.flatMap (Member.code noCase)).length < fuel) :
    ∃ hit, classHit ops x c n fuel j = some hit ∧ (hit = true ↔ ∃ i ∈ ms, i.Has noCase c) := by
  induction ms generalizing j fuel with
  | nil =>
    obtain ⟨fuel, rfl⟩ := Nat.exists_eq_succ_of_ne_zero (Nat.ne_of_gt hfuel)
    refine ⟨false, ?_, by simp⟩
    rw [classHit, if_neg (by rw [hn]; simp)]
  | cons i ms ih =>
    rw [List.flatMap_cons, List.length_append] at hn hfuel
    rw [List.flatMap_cons] at hat
    obtain ⟨hatI, hatMs⟩ := at_append hat
    obtain ⟨fuel, rfl⟩ := Nat.exists_eq_succ_of_ne_zero (Nat.ne_of_gt (Nat.zero_lt_of_lt hfuel))
    have hlt : (j : ℤ) < n := by
      cases i <;> simp only [Member.code, List.length_cons, List.length_nil] at hn <;> omega
    obtain ⟨hit, hhit, hiff⟩ := ih (j + (i.code noCase).length) fuel
      (by rw [← Nat.add_assoc]; exact hatMs) (by rw [hn]; push_cast; ring)
      (by cases i <;> simp only [Member.code, List.length_cons, List.length_nil] at hfuel <;> omega)
    have hmore {b : Prop} (hb : ¬b) : (hit = true ↔ b ∨ ∃ i ∈ ms, i.Has noCase c) := by
      rw [hiff]
      simp [hb]
    simp only [List.mem_cons, exists_eq_or_imp]
    rw [classHit, if_pos hlt]
    cases i with
    | one l =>
      rw [(at_cons hatI).1]
      dsimp only
      by_cases hl : l.value noCase = c
      · exact ⟨true, if_pos (by exact_mod_cast hl), by simp [Member.Has, hl]⟩
      · rw [if_neg (by exact_mod_cast hl)]
        exact ⟨hit, hhit, hmore hl⟩
    | range lo hi =>
      obtain ⟨hlo, hhi⟩ := at_cons hatI
      rw [hlo]
      dsimp only
      by_cases hle : lo.value noCase ≤ c
      · rw [if_pos (by exact_mod_cast hle), (at_cons hhi).1]
        dsimp only
        by_cases hge : c ≤ hi.value noCase
        · exact ⟨true, if_pos (by exact_mod_cast hge), by simp [Member.Has, hle, hge]⟩
        · rw [if_neg (by exact_mod_cast hge)]
          exact ⟨hit, hhit, hmore fun h => hge h.2⟩
      · rw [if_neg (by exact_mod_cast hle)]
        exact ⟨hit, hhit, hmore fun h => hle h.1⟩

theorem implements_cls {noCase negated : Bool} {m : Member} {ms : List Member}
    (hvalid : ∀ i ∈ m :: ms, i.Valid) : Implements ((Simple.cls negated m ms).code noCase)
      ((Simple.cls negated m ms).means noCase) := by
  apply implements_takes
  intro ops o hat p c
  obtain ⟨hx, hatMs⟩ := at_cons hat
  have hlen : (((m :: ms).flatMap (Member.code noCase)).length : ℤ) + 1 =
      (1 : ℕ) + ((m :: ms).flatMap (Member.code noCase)).length := by
    push_cast
    ring
  have hbound := hat.2
  simp only [Simple.code, List.length_cons] at hbound ⊢
  obtain ⟨hit, hhit, hiff⟩ := classHit_members (c := c) (m :: ms) 1 (ops.length + 1) hatMs hlen
    (by omega)
  have hjump : jump ops o ((((m :: ms).flatMap (Member.code noCase)).length : ℤ) + 1) =
      some (o + (((m :: ms).flatMap (Member.code noCase)).length + 1)) :=
    jump_eq (by push_cast; ring) hbound
  -- No member of a class is the end of the text.
  have hzero : c = 0 → ¬∃ i ∈ m :: ms, i.Has noCase c := by
    rintro rfl ⟨i, hi, hhas⟩
    have hi' := hvalid i hi
    cases i with
    | one l => exact value_ne noCase hi' hhas
    | range lo hi => exact value_ne noCase hi'.1 (Nat.le_zero.mp hhas.1)
  rw [visit_eq hx]
  generalize (m :: ms).flatMap (Member.code noCase) = members at hhit hjump ⊢
  cases negated with
  | false =>
    refine ⟨hit, ?_, ?_⟩
    · simp only [perform, charTest, placeTest, Bool.false_eq_true, if_false, hhit, Option.bind_some]
      cases hit <;> simp [moveIf, hjump]
    · rw [hiff]
      constructor
      · intro h
        exact ⟨fun hc => hzero hc h, by simpa using h⟩
      · rintro ⟨-, h⟩
        simpa using h
  | true =>
    by_cases hc : c = 0
    · refine ⟨false, by simp [perform, charTest, placeTest, hc], by simp [hc]⟩
    · refine ⟨!hit, ?_, ?_⟩
      · simp only [perform, charTest, placeTest, if_true, hc, if_false, hhit, Option.bind_some]
        cases hit <;> simp [moveIf, hjump]
      · rw [Bool.not_eq_true', ← Bool.not_eq_true, hiff]
        simp [hc]

theorem implements_simple {noCase : Bool} {a : Simple} (hvalid : a.Valid) :
    Implements (a.code noCase) (a.means noCase) := by
  cases a with
  | lit l =>
    apply implements_char
    intro c
    refine ⟨_, rfl, ?_⟩
    have hl := value_ne noCase hvalid
    rw [decide_eq_true_iff]
    constructor
    · intro h
      have h : l.value noCase = c := by exact_mod_cast h
      exact ⟨h ▸ hl, h⟩
    · rintro ⟨-, h⟩
      exact_mod_cast h
  | any =>
    apply implements_char
    intro c
    exact ⟨_, rfl, by simp⟩
  | cls negated m ms => exact implements_cls hvalid
  | shorthand s =>
    apply implements_char
    intro c
    have hword : reWordChar 0 = false := by decide
    have hdigit : reDigitChar 0 = false := by decide
    have hspace : reSpaceChar 0 = false := by decide
    cases s <;> refine ⟨_, rfl, ?_⟩ <;> by_cases hc : c = 0 <;>
      simp [Shorthand.Test, hc, hword, hdigit, hspace]
  | boundary =>
    apply implements_place
    · intro c
      rfl
    · intro p w
      exact ⟨_, rfl, by simp⟩
  | start =>
    apply implements_place
    · intro c
      rfl
    · intro p w
      exact ⟨_, rfl, by simp⟩

theorem implements_simpleCode {noCase : Bool} {a : Simple} {q : Quant} (ha : a.Valid)
    (hq : ∀ m n, q = .rep m n → m ≤ n) :
    Implements (simpleCode noCase a q) (q.means (a.means noCase)) := by
  unfold simpleCode
  split_ifs with h
  · rw [h.1, h.2]
    exact implements_anystar 0
  · exact implements_quant (implements_simple ha) hq

theorem le_of_valid {q : Quant} (hq : q.Valid) :
    ∀ m n, q = .rep m n → m ≤ n := by
  rintro m n rfl
  exact hq.1

mutual

/-- The code of an expression means what the expression does. -/
theorem implements_re {noCase : Bool} : (r : Re) → r.Valid → r.NoEol →
    Implements (r.code noCase) (r.means noCase)
  | .str s eol, hvalid, heol => by
    obtain rfl : eol = false := heol
    have hs : Implements (s.code noCase) (s.means noCase) := implements_str s hvalid
    simp only [Re.code, eolCode, Bool.false_eq_true, if_false, List.append_nil]
    apply implements_congr hs
    intro σ τ
    simp [Re.means]
  | .alt r s eol, hvalid, heol => by
    obtain ⟨heolr, rfl⟩ := heol
    have hr : Implements (r.code noCase) (r.means noCase) := implements_re r hvalid.1 heolr
    have hs : Implements (s.code noCase) (s.means noCase) := implements_str s hvalid.2
    simp only [Re.code, eolCode, Bool.false_eq_true, if_false, List.append_nil]
    apply implements_congr (implements_alt hr hs)
    intro σ τ
    simp [Re.means]

theorem implements_str {noCase : Bool} : (s : Str) → s.Valid →
    Implements (s.code noCase) (s.means noCase)
  | .nil, _ => implements_nil
  | .simple _ _ s, ⟨ha, hq, hs⟩ =>
    implements_append (implements_simpleCode ha (le_of_valid hq)) (implements_str s hs)
  | .group r _ s, ⟨hr, hq, hs⟩ =>
    implements_append (implements_quant (implements_re r hr.1 hr.2) (le_of_valid hq))
      (implements_str s hs)

end

/-- A string that may ask for the end of the text, in front of a state that leads to the
accepting one without another look at the text. -/
theorem finds_str {noCase : Bool} {s : Str} (hs : s.Valid) {eol : Bool}
    {ops : List Instr} {o : ℕ} (hat : At ops o (s.code noCase ++ eolCode eol))
    (hend : ∀ p cs, Reaches ops p cs (o + (s.code noCase ++ eolCode eol).length)) (p : ℕ)
    (w : List ℕ) (hw : 0 ∉ w) : Reaches ops p (w ++ [0]) o ↔
      ∃ τ, s.means noCase (p, w) τ ∧ (eol = true → τ.2 = []) := by
  obtain ⟨hatS, hatE⟩ := at_append hat
  have hcarries := implements_str s hs ops o hatS
  rw [List.length_append, ← Nat.add_assoc] at hend
  -- Behind the string the text may have to be at its end.
  have hbehind (τ : Place) (hτ : 0 ∉ τ.2) :
      Reaches ops τ.1 (τ.2 ++ [0]) (o + (s.code noCase).length) ↔ (eol = true → τ.2 = []) := by
    cases eol with
    | false =>
      simp only [Bool.false_eq_true, false_implies, iff_true]
      exact hend τ.1 _
    | true =>
      simp only [true_implies]
      have hx := (at_cons (B := []) hatE).1
      have hnext : o + (s.code noCase).length + 1 < ops.length := hatE.2
      obtain ⟨p', w'⟩ := τ
      cases w' with
      | nil =>
        simp only [List.nil_append, iff_true]
        rw [reaches_step (visit_char hx rfl hnext)]
        exact .inr ⟨_, List.mem_singleton_self _, hend 0 []⟩
      | cons c w' =>
        have hc : ¬(0 : ℤ) = c := by
          intro h
          apply hτ
          have : 0 = c := by exact_mod_cast h
          simp [this]
        simp only [reduceCtorEq, iff_false]
        rw [List.cons_append, reaches_step (visit_char hx rfl hnext)]
        simp [hc]
  constructor
  · rintro ⟨n, hn⟩
    obtain ⟨m, τ, -, hR, hτ, h⟩ := hcarries.sound n p w hw hn
    exact ⟨τ, hR, (hbehind τ hτ).mp ⟨m, h⟩⟩
  · rintro ⟨τ, hR, hτ⟩
    apply hcarries.complete p w τ hR
    cases eol with
    | false => exact hend τ.1 _
    | true => exact (hbehind τ (by simp [hτ rfl])).mpr hτ

/-- An expression in front of a state that leads to the accepting one finds what it says. -/
theorem finds_re {noCase : Bool} {ops : List Instr} : (r : Re) →
    r.Valid → ∀ o, At ops o (r.code noCase) →
    (∀ p cs, Reaches ops p cs (o + (r.code noCase).length)) → ∀ p w, 0 ∉ w →
    (Reaches ops p (w ++ [0]) o ↔ ∃ τ, r.means noCase (p, w) τ)
  | .str s eol, hvalid, o, hat, hend, p, w, hw => finds_str hvalid hat hend p w hw
  | .alt r s eol, hvalid, o, hat, hend, p, w, hw => by
    obtain ⟨hleft, hright, hfork, hpast, hgoto, hlen⟩ := altAt hat
    have hpast' : ∀ p cs, Reaches ops p cs (o + 1 + (r.code noCase).length) := by
      intro p cs
      cases cs with
      | nil => exact reaches_nil.mpr (.inr ⟨_, hpast, hend p []⟩)
      | cons c cs =>
        obtain ⟨arg, hx, hjump⟩ := hpast
        obtain ⟨hlt, hy⟩ := jump_lt hjump
        rw [reaches_step (visit_goto hx hy hlt)]
        exact .inl ⟨_, List.mem_singleton_self _, hend p (c :: cs)⟩
    have hend' : ∀ p cs, Reaches ops p cs
        (o + 1 + (r.code noCase).length + 1 + (s.code noCase ++ eolCode eol).length) := by
      intro p cs
      exact hlen ▸ hend p cs
    have hr := finds_re r hvalid.1 (o + 1) hleft hpast' p w hw
    have hs := finds_str hvalid.2 hright hend' p w hw
    have hsplit : Reaches ops p (w ++ [0]) o ↔
        Reaches ops p (w ++ [0]) (o + 1 + (r.code noCase).length + 1) ∨
        Reaches ops p (w ++ [0]) (o + 1) := by
      constructor
      · rintro ⟨_ | n, hn⟩
        · exact hn.elim
        · obtain h | h := (hfork n p w).mp hn
          · exact .inl ⟨n, h⟩
          · exact .inr ⟨n, h⟩
      · rintro (⟨n, h⟩ | ⟨n, h⟩)
        · exact ⟨n + 1, (hfork n p w).mpr (.inl h)⟩
        · exact ⟨n + 1, (hfork n p w).mpr (.inr h)⟩
    rw [hsplit, hr, hs]
    constructor
    · rintro (⟨τ, h⟩ | ⟨τ, h⟩)
      · exact ⟨τ, .inr h⟩
      · exact ⟨τ, .inl h⟩
    · rintro ⟨τ, h | h⟩
      · exact .inr ⟨τ, h⟩
      · exact .inl ⟨τ, h⟩

end Rules

end RSQLCipher.RegexpCode
