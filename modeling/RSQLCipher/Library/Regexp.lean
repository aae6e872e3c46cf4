import Mathlib.Data.List.Basic

namespace RSQLCipher.Library

variable {α : Type}

/-- Regular expressions with numbered groups. -/
inductive Regexp (α : Type) where
  | empty
  | set (p : α → Bool)
  | seq (r r' : Regexp α)
  | alt (r r' : Regexp α)
  | plus (r : Regexp α)
  | group (n : ℕ) (r : Regexp α)

abbrev Groups (α : Type) := List (ℕ × List α)

namespace Regexp

/-- The ways in which an expression matches a whole text, with what its groups match. -/
inductive Matches : Regexp α → List α → Groups α → Prop
  | empty : Matches .empty [] []
  | set {p : α → Bool} {a : α} (h : p a = true) : Matches (.set p) [a] []
  | seq {r r' : Regexp α} {s s' : List α} {g g' : Groups α} (h : Matches r s g)
      (h' : Matches r' s' g') : Matches (.seq r r') (s ++ s') (g ++ g')
  | altLeft {r r' : Regexp α} {s : List α} {g : Groups α} (h : Matches r s g) :
      Matches (.alt r r') s g
  | altRight {r r' : Regexp α} {s : List α} {g : Groups α} (h : Matches r' s g) :
      Matches (.alt r r') s g
  | plusOne {r : Regexp α} {s : List α} {g : Groups α} (h : Matches r s g) : Matches (.plus r) s g
  | plusMore {r : Regexp α} {s s' : List α} {g g' : Groups α} (h : Matches r s g)
      (h' : Matches (.plus r) s' g') : Matches (.plus r) (s ++ s') (g ++ g')
  | group {n : ℕ} {r : Regexp α} {s : List α} {g : Groups α} (h : Matches r s g) :
      Matches (.group n r) s ((n, s) :: g)

section Inversion

variable {r r' : Regexp α} {s : List α} {g : Groups α}

theorem matches_empty : Matches (.empty : Regexp α) s g ↔ s = [] ∧ g = [] := by
  constructor
  · intro h
    cases h
    exact ⟨rfl, rfl⟩
  · rintro ⟨rfl, rfl⟩
    exact .empty

theorem matches_set {p : α → Bool} : Matches (.set p) s g ↔ ∃ a, p a = true ∧ s = [a] ∧ g = [] := by
  constructor
  · rintro ⟨⟩
    exact ⟨_, ‹_›, rfl, rfl⟩
  · rintro ⟨a, ha, rfl, rfl⟩
    exact .set ha

theorem matches_seq : Matches (.seq r r') s g ↔
    ∃ a b ga gb, Matches r a ga ∧ Matches r' b gb ∧ s = a ++ b ∧ g = ga ++ gb := by
  constructor
  · rintro ⟨⟩
    exact ⟨_, _, _, _, ‹_›, ‹_›, rfl, rfl⟩
  · rintro ⟨a, b, ga, gb, ha, hb, rfl, rfl⟩
    exact .seq ha hb

theorem matches_alt : Matches (.alt r r') s g ↔ Matches r s g ∨ Matches r' s g := by
  constructor
  · intro h
    cases h with
    | altLeft h => exact .inl h
    | altRight h => exact .inr h
  · rintro (h | h)
    · exact .altLeft h
    · exact .altRight h

theorem matches_group {n : ℕ} :
    Matches (.group n r) s g ↔ ∃ g', Matches r s g' ∧ g = (n, s) :: g' := by
  constructor
  · rintro ⟨⟩
    exact ⟨_, ‹_›, rfl⟩
  · rintro ⟨g', h, rfl⟩
    exact .group h

/-- The rule for repetitions: what one round gives, and what a round in front keeps. -/
theorem matches_plus_induction {motive : List α → Groups α → Prop}
    (one : ∀ s g, Matches r s g → motive s g)
    (more : ∀ s g s' g', Matches r s g → motive s' g' → motive (s ++ s') (g ++ g'))
    (h : Matches (.plus r) s g) : motive s g := by
  generalize hr : Regexp.plus r = e at h
  induction h with
  | plusOne h =>
    cases hr
    exact one _ _ h
  | plusMore h _ _ ih =>
    cases hr
    exact more _ _ _ _ h (ih rfl)
  | empty | set | seq | altLeft | altRight | group => cases hr

end Inversion

def splits (s : List α) : List (List α × List α) :=
  (List.range (s.length + 1)).map fun n => (s.take n, s.drop n)

theorem mem_splits {s a b : List α} : (a, b) ∈ splits s ↔ s = a ++ b := by
  simp only [splits, List.mem_map, List.mem_range, Prod.mk.injEq]
  constructor
  · rintro ⟨n, -, rfl, rfl⟩
    exact (List.take_append_drop n s).symm
  · rintro rfl
    exact ⟨a.length, by rw [List.length_append]; omega, by simp, by simp⟩

/-- At most so many rounds after the first; rounds that match nothing are left out. -/
def rounds (f : List α → List (Groups α)) : ℕ → List α → List (Groups α)
  | 0, s => f s
  | n + 1, s => f s ++ (splits s).flatMap fun p =>
      if p.1.isEmpty then [] else (f p.1).flatMap fun g => (rounds f n p.2).map (g ++ ·)

def all : Regexp α → List α → List (Groups α)
  | .empty, s => if s.isEmpty then [[]] else []
  | .set p, s => if s.length = 1 ∧ s.all p then [[]] else []
  | .seq r r', s => (splits s).flatMap fun p =>
      (all r p.1).flatMap fun g => (all r' p.2).map (g ++ ·)
  | .alt r r', s => all r s ++ all r' s
  | .plus r, s => rounds (all r) s.length s
  | .group n r, s => (all r s).map ((n, s) :: ·)

theorem matches_of_mem_rounds {r : Regexp α} {f : List α → List (Groups α)}
    (hf : ∀ s g, g ∈ f s → Matches r s g) (n : ℕ) (s : List α) (g : Groups α)
    (h : g ∈ rounds f n s) : Matches (.plus r) s g := by
  induction n generalizing s g with
  | zero => exact .plusOne (hf s g h)
  | succ n ih =>
    simp only [rounds, List.mem_append, List.mem_flatMap] at h
    obtain hone | ⟨⟨a, b⟩, hsplit, hmore⟩ := h
    · exact .plusOne (hf s g hone)
    · split at hmore
      · cases hmore
      · simp only [List.mem_flatMap, List.mem_map] at hmore
        obtain ⟨ga, ha, gb, hb, rfl⟩ := hmore
        rw [mem_splits.mp hsplit]
        exact .plusMore (hf a ga ha) (ih b gb hb)

theorem matches_of_mem_all (r : Regexp α) (s : List α) (g : Groups α) (h : g ∈ all r s) :
    Matches r s g := by
  induction r generalizing s g with
  | empty =>
    cases s with
    | nil =>
      obtain rfl : g = [] := by simpa [all] using h
      exact .empty
    | cons a s => simp [all] at h
  | set p =>
    rw [all] at h
    split at h
    · rename_i hs
      obtain ⟨a, rfl⟩ := List.length_eq_one_iff.mp hs.1
      obtain rfl : g = [] := by simpa using h
      exact .set (by simpa using hs.2)
    · cases h
  | seq r r' ih ih' =>
    simp only [all, List.mem_flatMap, List.mem_map] at h
    obtain ⟨⟨a, b⟩, hsplit, ga, ha, gb, hb, rfl⟩ := h
    rw [mem_splits.mp hsplit]
    exact .seq (ih a ga ha) (ih' b gb hb)
  | alt r r' ih ih' =>
    obtain h | h := List.mem_append.mp h
    · exact .altLeft (ih s g h)
    · exact .altRight (ih' s g h)
  | plus r ih => exact matches_of_mem_rounds ih s.length s g h
  | group n r ih =>
    obtain ⟨g', h', rfl⟩ := List.mem_map.mp h
    exact .group (ih s g' h')

theorem exists_mem_rounds {f : List α → List (Groups α)} {a b : List α} {g : Groups α} {n : ℕ}
    (ha : g ∈ f a) (hne : a ≠ []) (hb : ∃ g, g ∈ rounds f n b) :
    ∃ g, g ∈ rounds f (n + 1) (a ++ b) := by
  obtain ⟨g', hg'⟩ := hb
  refine ⟨g ++ g', ?_⟩
  simp only [rounds, List.mem_append, List.mem_flatMap]
  refine .inr ⟨(a, b), mem_splits.mpr rfl, ?_⟩
  rw [if_neg (by simpa using hne)]
  exact List.mem_flatMap.mpr ⟨g, ha, List.mem_map.mpr ⟨g', hg', rfl⟩⟩

theorem mem_rounds_one {f : List α → List (Groups α)} {s : List α} {g : Groups α} (h : g ∈ f s)
    (n : ℕ) : g ∈ rounds f n s := by
  cases n with
  | zero => exact h
  | succ n => exact List.mem_append_left _ h

theorem exists_mem_all (r : Regexp α) {s : List α} {g : Groups α} (h : Matches r s g) :
    ∃ g, g ∈ all r s := by
  induction r generalizing s g with
  | empty =>
    obtain ⟨rfl, rfl⟩ := matches_empty.mp h
    exact ⟨[], by simp [all]⟩
  | set p =>
    obtain ⟨a, ha, rfl, rfl⟩ := matches_set.mp h
    exact ⟨[], by simp [all, ha]⟩
  | seq r r' ih ih' =>
    obtain ⟨a, b, _, _, ha, hb, rfl, rfl⟩ := matches_seq.mp h
    obtain ⟨ga, hga⟩ := ih ha
    obtain ⟨gb, hgb⟩ := ih' hb
    refine ⟨ga ++ gb, List.mem_flatMap.mpr ⟨(a, b), mem_splits.mpr rfl, ?_⟩⟩
    exact List.mem_flatMap.mpr ⟨ga, hga, List.mem_map.mpr ⟨gb, hgb, rfl⟩⟩
  | alt r r' ih ih' =>
    obtain h | h := matches_alt.mp h
    · obtain ⟨g', hg'⟩ := ih h
      exact ⟨g', List.mem_append_left _ hg'⟩
    · obtain ⟨g', hg'⟩ := ih' h
      exact ⟨g', List.mem_append_right _ hg'⟩
  | plus r ih =>
    have hrounds : ∀ n, s.length ≤ n → ∃ g, g ∈ rounds (all r) n s := by
      apply matches_plus_induction (motive := fun s _ =>
        ∀ n, s.length ≤ n → ∃ g, g ∈ rounds (all r) n s) _ _ h
      · intro s g hs n _
        obtain ⟨g', hg'⟩ := ih hs
        exact ⟨g', mem_rounds_one hg' n⟩
      · intro s g s' g' hs hs' n hn
        obtain ⟨ga, hga⟩ := ih hs
        cases s with
        | nil => exact hs' n hn
        | cons a s =>
          simp only [List.length_append, List.length_cons] at hn
          obtain ⟨m, rfl⟩ := Nat.exists_eq_add_of_lt (show 0 < n by omega)
          rw [Nat.zero_add]
          exact exists_mem_rounds hga (List.cons_ne_nil a s) (hs' m (by omega))
    exact hrounds s.length (Nat.le_refl _)
  | group n r ih =>
    obtain ⟨g', h', rfl⟩ := matches_group.mp h
    obtain ⟨g'', hg''⟩ := ih h'
    exact ⟨(n, s) :: g'', List.mem_map.mpr ⟨g'', hg'', rfl⟩⟩

end Regexp

/-- A matcher, which may choose among the ways to match. -/
structure Engine (α : Type) where
  run : Regexp α → List α → Option (Groups α)
  sound : ∀ r s g, run r s = some g → r.Matches s g
  complete : ∀ r s g, r.Matches s g → run r s ≠ none

/-- The matcher that tries all ways and takes the first. -/
def Engine.trying : Engine α where
  run r s := (r.all s).head?
  sound r s g h := Regexp.matches_of_mem_all r s g (List.mem_of_mem_head? h)
  complete r s g h := by
    obtain ⟨g', hg'⟩ := Regexp.exists_mem_all r h
    intro hnone
    rw [List.head?_eq_none_iff.mp hnone] at hg'
    cases hg'

/-- Where there is one way to match, every matcher finds it. -/
theorem Engine.run_eq (E : Engine α) {r : Regexp α} {s : List α} {g : Groups α}
    (h : r.Matches s g) (hunique : ∀ g', r.Matches s g' → g' = g) : E.run r s = some g := by
  cases hrun : E.run r s with
  | none => exact absurd hrun (E.complete r s g h)
  | some g' => rw [hunique g' (E.sound r s g' hrun)]

end RSQLCipher.Library
