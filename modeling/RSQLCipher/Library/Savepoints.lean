import Mathlib.Data.List.Basic

namespace RSQLCipher.Library

variable {ν δ : Type}

structure Savepoint (ν δ : Type) where
  name : ν
  before : δ
deriving DecidableEq, Repr

/-- A content that is changed inside of nested savepoints, the innermost first; `begun` has
the content at the start of a transaction that is not a savepoint. -/
@[ext] structure Store (ν δ : Type) where
  content : δ
  begun : Option δ
  savepoints : List (Savepoint ν δ)
deriving DecidableEq, Repr

def Store.inTransaction (s : Store ν δ) : Bool := s.begun.isSome || !s.savepoints.isEmpty

def Store.begin (s : Store ν δ) : Option (Store ν δ) :=
  if s.inTransaction then none else some { s with begun := some s.content }

def Store.commit (s : Store ν δ) : Option (Store ν δ) :=
  if s.inTransaction then some { s with begun := none, savepoints := [] } else none

def Store.start (s : Store ν δ) : Option δ :=
  s.begun <|> (s.savepoints.getLast?).map Savepoint.before

def Store.rollback (s : Store ν δ) : Option (Store ν δ) :=
  s.start.map fun content => { content := content, begun := none, savepoints := [] }

def Store.savepoint (name : ν) (s : Store ν δ) : Store ν δ :=
  { s with savepoints := { name := name, before := s.content } :: s.savepoints }

section Named

variable [DecidableEq ν]

/-- The savepoints from the innermost one of a name on. -/
def innermost (name : ν) (l : List (Savepoint ν δ)) : List (Savepoint ν δ) :=
  l.dropWhile fun p => p.name ≠ name

def Store.release (name : ν) (s : Store ν δ) : Option (Store ν δ) :=
  match innermost name s.savepoints with
  | [] => none
  | _ :: below => some { s with savepoints := below }

def Store.rollbackTo (name : ν) (s : Store ν δ) : Option (Store ν δ) :=
  match innermost name s.savepoints with
  | [] => none
  | p :: below => some { s with content := p.before, savepoints := p :: below }

end Named

/-- A store inside of a savepoint that was set in another one: perhaps with other content,
and perhaps inside of further savepoints, of other names. -/
structure Inside (name : ν) (base s : Store ν δ) : Prop where
  begun : s.begun = base.begun
  above : ∃ l : List (Savepoint ν δ), (∀ p ∈ l, p.name ≠ name) ∧
    s.savepoints = l ++ { name := name, before := base.content } :: base.savepoints

variable {name : ν} {base s : Store ν δ}

theorem inside_savepoint (name : ν) (s : Store ν δ) : Inside name s (s.savepoint name) :=
  ⟨rfl, [], List.forall_mem_nil _, rfl⟩

theorem Inside.content (h : Inside name base s) (content : δ) :
    Inside name base { s with content := content } := ⟨h.begun, h.above⟩

theorem Inside.savepoint (h : Inside name base s) {inner : ν} (hne : inner ≠ name) :
    Inside name base (s.savepoint inner) := by
  obtain ⟨l, hl, hsave⟩ := h.above
  refine ⟨h.begun, { name := inner, before := s.content } :: l, ?_, ?_⟩
  · exact List.forall_mem_cons.mpr ⟨hne, hl⟩
  · rw [Store.savepoint, hsave]
    rfl

theorem Inside.inTransaction (h : Inside name base s) : s.inTransaction = true := by
  obtain ⟨l, -, hsave⟩ := h.above
  rw [Store.inTransaction, hsave]
  cases l <;> simp

variable [DecidableEq ν]

theorem Inside.innermost_eq (h : Inside name base s) :
    innermost name s.savepoints = { name := name, before := base.content } :: base.savepoints := by
  obtain ⟨l, hl, hsave⟩ := h.above
  rw [innermost, hsave]
  clear hsave
  induction l with
  | nil => simp
  | cons p l ih =>
    obtain ⟨hp, hl⟩ := List.forall_mem_cons.mp hl
    rw [List.cons_append, List.dropWhile_cons_of_pos (by simpa using hp)]
    exact ih hl

theorem Inside.rollbackTo (h : Inside name base s) :
    s.rollbackTo name = some (base.savepoint name) := by
  rw [Store.rollbackTo, h.innermost_eq, Store.savepoint, ← h.begun]

theorem Inside.release (h : Inside name base s) :
    s.release name = some { base with content := s.content } := by
  rw [Store.release, h.innermost_eq, ← h.begun]

theorem name_of_innermost {l below : List (Savepoint ν δ)} {p : Savepoint ν δ}
    (h : innermost name l = p :: below) : p.name = name := by
  induction l with
  | nil => cases h
  | cons q l ih =>
    rw [innermost] at h
    by_cases hq : q.name = name
    · rw [List.dropWhile_cons_of_neg (by simpa using hq)] at h
      cases h
      exact hq
    · rw [List.dropWhile_cons_of_pos (by simpa using hq)] at h
      exact ih h

theorem release_innermost {below : List (Savepoint ν δ)} {p : Savepoint ν δ}
    (h : innermost name s.savepoints = p :: below) (content : δ) :
    Store.release name { s with content := content, savepoints := p :: below } =
      some { s with content := content, savepoints := below } := by
  simp [Store.release, innermost, name_of_innermost h]

/-- The savepoint that is rolled back to stays, and can be released. -/
theorem release_of_rollbackTo {s' : Store ν δ} (h : s.rollbackTo name = some s') :
    ∃ released, s'.release name = some released := by
  rw [Store.rollbackTo] at h
  cases hsave : innermost name s.savepoints with
  | nil =>
    rw [hsave] at h
    cases h
  | cons p below =>
    rw [hsave] at h
    cases h
    exact ⟨_, release_innermost hsave p.before⟩

@[simp] theorem release_savepoint (name : ν) (s : Store ν δ) :
    (s.savepoint name).release name = some s := (inside_savepoint name s).release

end RSQLCipher.Library
