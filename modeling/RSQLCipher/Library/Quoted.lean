import Mathlib.Data.List.Induction

namespace RSQLCipher.Library

variable {α : Type} [DecidableEq α]

/-- The rest of a quoted literal: a doubled quote stands for one, any other ends it.
Returns the text of the literal and what comes behind it. -/
def scanQuoted (q : α) : List α → Option (List α × List α)
  | [] => none
  | [c] => if c = q then some ([], []) else none
  | c :: d :: rest =>
    if c = q then
      if d = q then (scanQuoted q rest).map fun p => (q :: p.1, p.2) else some ([], d :: rest)
    else (scanQuoted q (d :: rest)).map fun p => (c :: p.1, p.2)

variable {q : α}

theorem scanQuoted_open {l : List α} (h : q ∉ l) : scanQuoted q l = none := by
  induction l with
  | nil => rfl
  | cons c l ih =>
    obtain ⟨hc, hl⟩ := List.ne_and_not_mem_of_not_mem_cons h
    cases l with
    | nil => simp [scanQuoted, hc.symm]
    | cons d rest => simp [scanQuoted, hc.symm, ih hl]

theorem scanQuoted_close {t : List α} (h : t.head? ≠ some q) :
    scanQuoted q (q :: t) = some ([], t) := by
  cases t with
  | nil => simp [scanQuoted]
  | cons d rest =>
    have hd : d ≠ q := by
      rintro rfl
      exact h rfl
    simp [scanQuoted, hd]

theorem scanQuoted_cons {c : α} {l : List α} (hc : c ≠ q) :
    scanQuoted q (c :: l) = (scanQuoted q l).map fun p => (c :: p.1, p.2) := by
  cases l with
  | nil => simp [scanQuoted, hc]
  | cons d rest => simp [scanQuoted, hc]

theorem scanQuoted_plain {k t : List α} (hk : q ∉ k) (ht : t.head? ≠ some q) :
    scanQuoted q (k ++ q :: t) = some (k, t) := by
  induction k with
  | nil => exact scanQuoted_close ht
  | cons c k ih =>
    obtain ⟨hc, hk⟩ := List.ne_and_not_mem_of_not_mem_cons hk
    rw [List.cons_append, scanQuoted_cons hc.symm, ih hk]
    rfl

/-- A text with a quote in it is read as a shorter one, if at all. -/
theorem scanQuoted_length {k t v rest : List α} (ht : q ∉ t)
    (h : scanQuoted q (k ++ q :: t) = some (v, rest)) :
    v.length ≤ k.length ∧ (q ∈ k → v.length < k.length) := by
  induction k using List.twoStepInduction generalizing v rest with
  | nil =>
    rw [List.nil_append, scanQuoted_close (mt List.mem_of_mem_head? ht)] at h
    cases h
    simp
  | singleton c =>
    by_cases hc : c = q
    · subst hc
      simp [scanQuoted, scanQuoted_open ht] at h
    · rw [List.cons_append, scanQuoted_cons hc, List.nil_append,
        scanQuoted_close (mt List.mem_of_mem_head? ht)] at h
      cases h
      simp [Ne.symm hc]
  | cons_cons c d k ih ihd =>
    by_cases hc : c = q
    · subst hc
      by_cases hd : d = c
      · subst hd
        simp only [List.cons_append, scanQuoted, if_true, Option.map_eq_some_iff, Prod.mk.injEq,
          Prod.exists] at h
        obtain ⟨v', rest', hscan, rfl, -⟩ := h
        have hle := (ih hscan).1
        simp only [List.length_cons]
        omega
      · simp only [List.cons_append, scanQuoted, if_true, if_neg hd, Option.some.injEq,
          Prod.mk.injEq] at h
        obtain ⟨rfl, -⟩ := h
        simp
    · rw [List.cons_append, scanQuoted_cons hc] at h
      simp only [Option.map_eq_some_iff, Prod.mk.injEq, Prod.exists] at h
      obtain ⟨v', rest', hscan, rfl, -⟩ := h
      obtain ⟨hle, hlt⟩ := ihd d hscan
      simp only [List.length_cons] at hle hlt ⊢
      refine ⟨by omega, fun hmem => ?_⟩
      have hlt' := hlt ((List.mem_cons.mp hmem).resolve_left (Ne.symm hc))
      omega

theorem scanQuoted_same {k t rest : List α} (ht : q ∉ t)
    (h : scanQuoted q (k ++ q :: t) = some (k, rest)) : q ∉ k := fun hk =>
  Nat.lt_irrefl _ ((scanQuoted_length ht h).2 hk)

def twice (q : α) : List α → List α
  | [] => []
  | c :: s => if c = q then q :: q :: twice q s else c :: twice q s

/-- Two quotes in a row become one, from the left. -/
def halve (q : α) : List α → List α
  | [] => []
  | [c] => [c]
  | c :: d :: s => if c = q ∧ d = q then q :: halve q s else c :: halve q (d :: s)

theorem halve_cons {c : α} (hc : c ≠ q) (s : List α) : halve q (c :: s) = c :: halve q s := by
  cases s with
  | nil => rfl
  | cons d s => simp [halve, hc]

theorem halve_twice (q : α) (s : List α) : halve q (twice q s) = s := by
  induction s with
  | nil => rfl
  | cons c s ih =>
    by_cases hc : c = q
    · simp [twice, hc, halve, ih]
    · rw [twice, if_neg hc, halve_cons hc, ih]

theorem twice_append (q : α) (s t : List α) : twice q (s ++ t) = twice q s ++ twice q t := by
  induction s with
  | nil => rfl
  | cons c s ih =>
    by_cases hc : c = q
    · simp [twice, hc, ih]
    · simp [twice, hc, ih]

/-- A quote that is not followed by another one ends a literal, whatever stands in it. -/
theorem scanQuoted_twice (s : List α) {t : List α} (ht : t.head? ≠ some q) :
    scanQuoted q (twice q s ++ q :: t) = some (s, t) := by
  induction s with
  | nil => exact scanQuoted_close ht
  | cons c s ih =>
    by_cases hc : c = q
    · simp [twice, hc, scanQuoted, ih]
    · rw [twice, if_neg hc, List.cons_append, scanQuoted_cons hc, ih]
      rfl

end RSQLCipher.Library
