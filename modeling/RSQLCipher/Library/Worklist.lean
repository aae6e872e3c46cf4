import Mathlib.Data.Finset.Card
import Mathlib.Logic.Relation

namespace RSQLCipher.Library.Worklist

variable {σ : Type}

/-- What a state asks for when it is visited: to stop, or to add states to the list that is
being visited and to the next one. -/
inductive Visit (σ : Type) where
  | accept
  | go (here there : List σ)

inductive Swept (σ : Type) where
  | accepted
  | next (states : List σ)
deriving DecidableEq

section Sets

variable [DecidableEq σ] (room : ℕ)

/-- Adds a state that is not yet there. A list with no room left is overrun. -/
def add (states : List σ) (x : σ) : Option (List σ) :=
  if x ∈ states then some states
  else if states.length < room then some (states ++ [x])
  else none

def addAll (states : List σ) (xs : List σ) : Option (List σ) := xs.foldlM (add room) states

variable (visit : σ → Option (Visit σ))

/-- Visits the states of a list from the given place on, while the list grows. -/
def sweep : ℕ → ℕ → List σ → List σ → Option (Swept σ)
  | 0, _, _, _ => none
  | fuel + 1, i, this, next =>
    match this[i]? with
    | none => some (.next next)
    | some x =>
      match visit x with
      | none => none
      | some .accept => some .accepted
      | some (.go here there) => do
        let this ← addAll room this here
        let next ← addAll room next there
        sweep fuel (i + 1) this next

end Sets

def Here (visit : σ → Option (Visit σ)) (x y : σ) : Prop :=
  ∃ here there, visit x = some (.go here there) ∧ y ∈ here

def There (visit : σ → Option (Visit σ)) (x y : σ) : Prop :=
  ∃ here there, visit x = some (.go here there) ∧ y ∈ there

/-- The states that a list leads to before the next one. -/
def Reached (visit : σ → Option (Visit σ)) (states : List σ) (y : σ) : Prop :=
  ∃ x ∈ states, Relation.ReflTransGen (Here visit) x y

variable {visit : σ → Option (Visit σ)} {states : List σ} {room : ℕ}

theorem reached_of_mem {x : σ} (h : x ∈ states) : Reached visit states x := ⟨x, h, .refl⟩

theorem reached_step {x y : σ} (hx : Reached visit states x) (hy : Here visit x y) :
    Reached visit states y := by
  obtain ⟨s, hs, hsx⟩ := hx
  exact ⟨s, hs, hsx.tail hy⟩

/-- A list that holds the first states and whatever its own states lead to holds all that
is reached. -/
theorem mem_of_reached {all : List σ} (hall : ∀ x ∈ states, x ∈ all)
    (hclosed : ∀ x ∈ all, ∀ y, Here visit x y → y ∈ all) {y : σ}
    (h : Reached visit states y) : y ∈ all := by
  obtain ⟨x, hx, hxy⟩ := h
  induction hxy with
  | refl => exact hall x hx
  | tail _ hstep ih => exact hclosed _ ih _ hstep

/-- States without repetition among those of a universe. -/
def Within (U : Finset σ) (states : List σ) : Prop := states.Nodup ∧ ∀ x ∈ states, x ∈ U

variable [DecidableEq σ] {U : Finset σ}

theorem length_le_card (h : Within U states) : states.length ≤ U.card := by
  rw [← List.toFinset_card_of_nodup h.1]
  apply Finset.card_le_card
  intro x hx
  exact h.2 x (List.mem_toFinset.mp hx)

theorem length_lt_card (h : Within U states) {x : σ} (hx : x ∈ U) (hnew : x ∉ states) :
    states.length < U.card := by
  have hcons : Within U (x :: states) :=
    ⟨List.nodup_cons.mpr ⟨hnew, h.1⟩, List.forall_mem_cons.mpr ⟨hx, h.2⟩⟩
  exact length_le_card hcons

theorem add_spec (hroom : U.card ≤ room) (h : Within U states) {x : σ} (hx : x ∈ U) :
    ∃ new, add room states x = some (states ++ new) ∧ Within U (states ++ new) ∧
      ∀ y, y ∈ states ++ new ↔ y ∈ states ∨ y = x := by
  by_cases hmem : x ∈ states
  · refine ⟨[], ?_, by simpa using h, ?_⟩
    · simp [add, hmem]
    · intro y
      rw [List.append_nil]
      constructor
      · exact Or.inl
      · rintro (hy | rfl)
        · exact hy
        · exact hmem
  · have hlt := length_lt_card h hx hmem
    refine ⟨[x], ?_, ⟨?_, ?_⟩, ?_⟩
    · rw [add, if_neg hmem, if_pos (by omega)]
    · rw [List.nodup_append]
      refine ⟨h.1, by simp, ?_⟩
      rintro y hy z hz rfl
      rw [List.mem_singleton] at hz
      exact hmem (hz ▸ hy)
    · intro y hy
      rw [List.mem_append, List.mem_singleton] at hy
      obtain hy | rfl := hy
      · exact h.2 y hy
      · exact hx
    · intro y
      rw [List.mem_append, List.mem_singleton]

theorem addAll_spec (hroom : U.card ≤ room) (xs : List σ) (hxs : ∀ x ∈ xs, x ∈ U)
    (h : Within U states) :
    ∃ new, addAll room states xs = some (states ++ new) ∧ Within U (states ++ new) ∧
      ∀ y, y ∈ states ++ new ↔ y ∈ states ∨ y ∈ xs := by
  induction xs generalizing states with
  | nil => exact ⟨[], by simp [addAll], by simpa using h, by simp⟩
  | cons x xs ih =>
    obtain ⟨new, hadd, hwithin, hmem⟩ := add_spec hroom h (hxs x List.mem_cons_self)
    obtain ⟨new', hall, hwithin', hmem'⟩ :=
      ih (fun y hy => hxs y (List.mem_cons_of_mem x hy)) hwithin
    refine ⟨new ++ new', ?_, ?_, ?_⟩
    · rw [addAll, List.foldlM_cons, hadd, ← List.append_assoc]
      exact hall
    · rwa [← List.append_assoc]
    · intro y
      rw [← List.append_assoc, hmem', hmem, List.mem_cons, or_assoc]

/-- What a universe must be for a sweep to stay in it. -/
def Closed (visit : σ → Option (Visit σ)) (U : Finset σ) : Prop :=
  ∀ x ∈ U, visit x = some .accept ∨
    ∃ here there, visit x = some (.go here there) ∧ (∀ y ∈ here, y ∈ U) ∧ ∀ y ∈ there, y ∈ U

/-- The state of a sweep that started from the given states: those before the place have
been visited, and the next list holds what they asked for. -/
structure Sweeping (visit : σ → Option (Visit σ)) (U : Finset σ) (states : List σ) (i : ℕ)
    (this next : List σ) : Prop where
  place : i ≤ this.length
  this_within : Within U this
  next_within : Within U next
  start : ∀ x ∈ states, x ∈ this
  reached : ∀ x ∈ this, Reached visit states x
  asked : ∀ y ∈ next, ∃ x, Reached visit states x ∧ There visit x y
  visited : ∀ x ∈ this.take i, ∃ here there, visit x = some (.go here there) ∧
    (∀ y ∈ here, y ∈ this) ∧ ∀ y ∈ there, y ∈ next

variable {this next : List σ} {i : ℕ}

theorem sweeping_step (hroom : U.card ≤ room) {x : σ} {here there : List σ}
    (h : Sweeping visit U states i this next) (hx : this[i]? = some x)
    (hvisit : visit x = some (.go here there)) (hhere : ∀ y ∈ here, y ∈ U)
    (hthere : ∀ y ∈ there, y ∈ U) :
    ∃ this' next', addAll room this here = some this' ∧ addAll room next there = some next' ∧
      Sweeping visit U states (i + 1) this' next' := by
  obtain ⟨new, hadd, hwithin, hmem⟩ := addAll_spec hroom here hhere h.this_within
  obtain ⟨new', hadd', hwithin', hmem'⟩ := addAll_spec hroom there hthere h.next_within
  obtain ⟨hi, hget⟩ := List.getElem?_eq_some_iff.mp hx
  have hxthis : x ∈ this := hget ▸ List.getElem_mem hi
  refine ⟨this ++ new, next ++ new', hadd, hadd', ?_⟩
  refine ⟨?_, hwithin, hwithin', ?_, ?_, ?_, ?_⟩
  · rw [List.length_append]
    omega
  · intro y hy
    exact (hmem y).mpr (.inl (h.start y hy))
  · intro y hy
    obtain hy | hy := (hmem y).mp hy
    · exact h.reached y hy
    · exact reached_step (h.reached x hxthis) ⟨here, there, hvisit, hy⟩
  · intro y hy
    obtain hy | hy := (hmem' y).mp hy
    · exact h.asked y hy
    · exact ⟨x, h.reached x hxthis, here, there, hvisit, hy⟩
  · intro y hy
    rw [List.take_append_of_le_length (by omega), List.take_add_one, hx, List.mem_append] at hy
    obtain hy | hy := hy
    · obtain ⟨here', there', hvisit', hhere', hthere'⟩ := h.visited y hy
      exact ⟨here', there', hvisit', fun z hz => (hmem z).mpr (.inl (hhere' z hz)),
        fun z hz => (hmem' z).mpr (.inl (hthere' z hz))⟩
    · rw [Option.toList_some, List.mem_singleton] at hy
      subst hy
      exact ⟨here, there, hvisit, fun z hz => (hmem z).mpr (.inr hz),
        fun z hz => (hmem' z).mpr (.inr hz)⟩

/-- What the result of a sweep from the given states says. -/
def SweptOf (visit : σ → Option (Visit σ)) (U : Finset σ) (states : List σ) : Swept σ → Prop
  | .accepted => ∃ x, Reached visit states x ∧ visit x = some .accept
  | .next next => (¬∃ x, Reached visit states x ∧ visit x = some .accept) ∧ Within U next ∧
      ∀ y, y ∈ next ↔ ∃ x, Reached visit states x ∧ There visit x y

omit [DecidableEq σ] in
theorem sweptOf_of_sweeping (h : Sweeping visit U states i this next) (hend : this[i]? = none) :
    SweptOf visit U states (.next next) := by
  have hlen : this.length ≤ i := List.getElem?_eq_none_iff.mp hend
  have hvisited := h.visited
  rw [List.take_of_length_le hlen] at hvisited
  have hclosed : ∀ x ∈ this, ∀ y, Here visit x y → y ∈ this := by
    rintro x hx y ⟨here, there, hvisit, hy⟩
    obtain ⟨here', there', hvisit', hhere, -⟩ := hvisited x hx
    rw [hvisit, Option.some.injEq, Visit.go.injEq] at hvisit'
    exact hhere y (hvisit'.1 ▸ hy)
  refine ⟨?_, h.next_within, ?_⟩
  · rintro ⟨x, hx, haccept⟩
    obtain ⟨here, there, hvisit, -⟩ := hvisited x (mem_of_reached h.start hclosed hx)
    rw [haccept] at hvisit
    cases hvisit
  · intro y
    constructor
    · exact h.asked y
    · rintro ⟨x, hx, here, there, hvisit, hy⟩
      obtain ⟨here', there', hvisit', -, hthere⟩ := hvisited x (mem_of_reached h.start hclosed hx)
      rw [hvisit, Option.some.injEq, Visit.go.injEq] at hvisit'
      exact hthere y (hvisit'.2 ▸ hy)

theorem sweep_of_sweeping (hroom : U.card ≤ room) (hclosed : Closed visit U) (fuel : ℕ)
    (hfuel : room < fuel + i) (h : Sweeping visit U states i this next) :
    ∃ r, sweep room visit fuel i this next = some r ∧ SweptOf visit U states r := by
  induction fuel generalizing i this next with
  | zero =>
    have hlen := length_le_card h.this_within
    have hplace := h.place
    omega
  | succ fuel ih =>
    cases hx : this[i]? with
    | none =>
      refine ⟨.next next, ?_, sweptOf_of_sweeping h hx⟩
      simp [sweep, hx]
    | some x =>
      obtain ⟨hi, hget⟩ := List.getElem?_eq_some_iff.mp hx
      have hxthis : x ∈ this := hget ▸ List.getElem_mem hi
      obtain hvisit | ⟨here, there, hvisit, hhere, hthere⟩ :=
        hclosed x (h.this_within.2 x hxthis)
      · refine ⟨.accepted, ?_, x, h.reached x hxthis, hvisit⟩
        simp [sweep, hx, hvisit]
      · obtain ⟨this', next', hthis, hnext, hstep⟩ :=
          sweeping_step hroom h hx hvisit hhere hthere
        obtain ⟨r, hr, hspec⟩ := ih (by omega) hstep
        refine ⟨r, ?_, hspec⟩
        simp [sweep, hx, hvisit, hthis, hnext, hr]

/-- A sweep of a list of states with room for the whole universe ends, overruns neither
list, and finds what the states lead to. -/
theorem sweep_spec (hroom : U.card ≤ room) (hclosed : Closed visit U)
    (hstates : Within U states) :
    ∃ r, sweep room visit (room + 1) 0 states [] = some r ∧ SweptOf visit U states r := by
  apply sweep_of_sweeping hroom hclosed
  · omega
  · refine ⟨Nat.zero_le _, hstates, ⟨List.nodup_nil, by simp⟩, fun _ hx => hx,
      fun x hx => reached_of_mem hx, by simp, by simp⟩

end RSQLCipher.Library.Worklist
