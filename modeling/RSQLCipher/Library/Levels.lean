import RSQLCipher.Library.Savepoints
import Mathlib.Data.List.Infix

namespace RSQLCipher.Library

variable {ν δ : Type}

/-- Nested work: its name, if it has one, and the content that it began with. -/
structure Level (ν δ : Type) where
  name : Option ν
  before : δ
deriving DecidableEq, Repr

/-- A content under nested levels of work, the innermost first, and what others see of it. -/
structure Nested (ν δ : Type) where
  seen : δ
  content : δ
  levels : List (Level ν δ)
deriving DecidableEq, Repr

/-- Others see the content as soon as no level is open. -/
def Nested.next (n : Nested ν δ) (content : δ) (levels : List (Level ν δ)) : Nested ν δ where
  seen := if levels.isEmpty then content else n.seen
  content := content
  levels := levels

def Nested.change (content : δ) (n : Nested ν δ) : Nested ν δ := n.next content n.levels

def Nested.begin (name : Option ν) (n : Nested ν δ) : Nested ν δ :=
  n.next n.content ({ name := name, before := n.content } :: n.levels)

/-- All levels are closed together. -/
def Nested.commitAll (n : Nested ν δ) : Option (Nested ν δ) :=
  if n.levels.isEmpty then none else some (n.next n.content [])

def Nested.rollbackAll (n : Nested ν δ) : Option (Nested ν δ) :=
  if n.levels.isEmpty then none else some (n.next n.seen [])

section Named

variable [DecidableEq ν]

/-- The levels from the innermost one of a name on. -/
def openFrom (name : ν) (l : List (Level ν δ)) : List (Level ν δ) :=
  l.dropWhile fun p => p.name ≠ some name

theorem openFrom_suffix (name : ν) (l : List (Level ν δ)) : openFrom name l <:+ l :=
  List.dropWhile_suffix _

theorem openFrom_of_mem {name : ν} {l : List (Level ν δ)} (h : ∃ p ∈ l, p.name = some name) :
    ∃ p outer, openFrom name l = p :: outer ∧ p.name = some name := by
  induction l with
  | nil =>
    obtain ⟨p, hp, -⟩ := h
    cases hp
  | cons q l ih =>
    rw [openFrom]
    by_cases hq : q.name = some name
    · exact ⟨q, l, List.dropWhile_cons_of_neg (by simpa using hq), hq⟩
    · rw [List.dropWhile_cons_of_pos (by simpa using hq)]
      obtain ⟨p, hp, hname⟩ := h
      obtain rfl | hmem := List.mem_cons.mp hp
      · exact absurd hname hq
      · exact ih ⟨p, hmem, hname⟩

def Nested.commit (name : ν) (n : Nested ν δ) : Option (Nested ν δ) :=
  match openFrom name n.levels with
  | [] => none
  | _ :: outer => some (n.next n.content outer)

def Nested.rollback (name : ν) (n : Nested ν δ) : Option (Nested ν δ) :=
  match openFrom name n.levels with
  | [] => none
  | l :: outer => some (n.next l.before outer)

end Named

section Closing

variable {n n' : Nested ν δ}

theorem levels_commitAll (h : n.commitAll = some n') : n'.levels = [] := by
  rw [Nested.commitAll] at h
  split at h
  · cases h
  · cases h
    rfl

theorem levels_rollbackAll (h : n.rollbackAll = some n') : n'.levels = [] := by
  rw [Nested.rollbackAll] at h
  split at h
  · cases h
  · cases h
    rfl

variable [DecidableEq ν] {name : ν}

/-- Around a level that is open are the outer ones. -/
theorem outer_suffix {l : List (Level ν δ)} {p : Level ν δ} {outer : List (Level ν δ)}
    (h : openFrom name l = p :: outer) : outer <:+ l := by
  have hsuffix := openFrom_suffix name l
  rw [h] at hsuffix
  exact (List.suffix_cons p outer).trans hsuffix

theorem levels_commit (h : n.commit name = some n') : n'.levels <:+ n.levels := by
  rw [Nested.commit] at h
  split at h
  · cases h
  · rename_i l outer hfrom
    cases h
    exact outer_suffix hfrom

theorem levels_rollback (h : n.rollback name = some n') : n'.levels <:+ n.levels := by
  rw [Nested.rollback] at h
  split at h
  · cases h
  · rename_i l outer hfrom
    cases h
    exact outer_suffix hfrom

end Closing

def Savepoint.level (p : Savepoint ν δ) : Level ν δ := { name := some p.name, before := p.before }

def Store.levels (s : Store ν δ) : List (Level ν δ) :=
  s.savepoints.map Savepoint.level ++
    s.begun.toList.map fun before => { name := none, before := before }

/-- What has been committed: the content at the start of the transaction that is open, if
one is. -/
def Store.committed (s : Store ν δ) : δ := s.start.getD s.content

/-- A store with savepoints as nested levels. -/
def Store.nested (s : Store ν δ) : Nested ν δ where
  seen := s.committed
  content := s.content
  levels := s.levels

section Store

variable {s s' : Store ν δ}

theorem inTransaction_iff : s.inTransaction = true ↔ s.levels ≠ [] := by
  obtain ⟨content, begun, savepoints⟩ := s
  cases begun <;> cases savepoints <;> simp [Store.inTransaction, Store.levels]

theorem levels_isEmpty : s.levels.isEmpty = !s.inTransaction := by
  rw [Bool.eq_iff_iff, List.isEmpty_iff, Bool.not_eq_true', ← Bool.not_eq_true, inTransaction_iff,
    not_not]

theorem start_eq (s : Store ν δ) : s.start = s.levels.getLast?.map Level.before := by
  obtain ⟨content, begun, savepoints⟩ := s
  cases begun with
  | none =>
    simp only [Store.start, Store.levels, Option.toList_none, List.map_nil, List.append_nil,
      List.getLast?_map, Option.map_map]
    rfl
  | some before => simp [Store.start, Store.levels]

/-- Two stores with the same content and levels are the same. -/
theorem store_ext (hcontent : s.content = s'.content) (hlevels : s.levels = s'.levels) : s = s' := by
  have hnamed : ∀ t : Store ν δ, t.levels.filterMap
      (fun l => l.name.map fun name => { name := name, before := l.before : Savepoint ν δ }) =
        t.savepoints := by
    intro t
    obtain ⟨content, begun, savepoints⟩ := t
    cases begun <;> simp [Store.levels, List.filterMap_append, List.filterMap_map, Function.comp_def,
      Savepoint.level]
  have hunnamed : ∀ t : Store ν δ,
      (t.levels.filter fun l => l.name.isNone).map Level.before = t.begun.toList := by
    intro t
    obtain ⟨content, begun, savepoints⟩ := t
    cases begun <;> simp [Store.levels, Savepoint.level, List.filter_eq_nil_iff]
  have hbegun : s.begun.toList = s'.begun.toList := by rw [← hunnamed, ← hunnamed, hlevels]
  apply Store.ext
  · exact hcontent
  · cases hs : s.begun <;> cases hs' : s'.begun <;> simp_all
  · rw [← hnamed, ← hnamed, hlevels]

/-- A step that keeps the start of the transaction, or leaves it. -/
theorem nested_next (h : s'.levels ≠ [] → s'.start = some s.committed) :
    s'.nested = s.nested.next s'.content s'.levels := by
  have hseen : s'.committed = if s'.levels.isEmpty then s'.content else s.committed := by
    rw [Store.committed]
    cases hlevels : s'.levels with
    | nil =>
      rw [start_eq, hlevels]
      rfl
    | cons l outer =>
      rw [h (by rw [hlevels]; exact List.cons_ne_nil l outer)]
      rfl
  simp only [Store.nested, Nested.next, hseen]

theorem start_of_suffix (hsuffix : s'.levels <:+ s.levels) (hopen : s'.levels ≠ []) :
    s'.start = some s.committed := by
  obtain ⟨inner, hinner⟩ := hsuffix
  have hlast : s'.start = s.start := by
    rw [start_eq, start_eq, ← hinner, List.getLast?_append_of_ne_nil inner hopen]
  have hsome : s'.start ≠ none := by
    rw [start_eq]
    simpa using hopen
  obtain ⟨before, hbefore⟩ := Option.ne_none_iff_exists'.mp hsome
  rw [Store.committed, ← hlast, hbefore]
  rfl

theorem nested_of_suffix (hsuffix : s'.levels <:+ s.levels) :
    s'.nested = s.nested.next s'.content s'.levels :=
  nested_next (start_of_suffix hsuffix)

theorem nested_content (s : Store ν δ) (content : δ) :
    ({ s with content := content } : Store ν δ).nested = s.nested.change content :=
  nested_of_suffix List.suffix_rfl

theorem nested_pushed {l : Level ν δ} (hlevels : s'.levels = l :: s.levels)
    (hbefore : l.before = s.content) :
    s'.nested = s.nested.next s'.content (l :: s.levels) := by
  rw [← hlevels]
  apply nested_next
  intro _
  rw [start_eq, hlevels, Store.committed, start_eq]
  cases hopen : s.levels with
  | nil => simp [hbefore]
  | cons m outer =>
    rw [List.getLast?_cons_cons]
    cases hlast : (m :: outer).getLast? with
    | none => simp at hlast
    | some o => rfl

theorem nested_savepoint (name : ν) (s : Store ν δ) :
    (s.savepoint name).nested = s.nested.begin (some name) :=
  nested_pushed (l := { name := some name, before := s.content }) rfl rfl

theorem nested_begin (s : Store ν δ) :
    s.begin.map Store.nested =
      if s.levels.isEmpty then some (s.nested.begin none) else none := by
  rw [Store.begin, levels_isEmpty]
  cases htransacting : s.inTransaction with
  | true => rfl
  | false =>
    have hclosed : s.levels = [] := by
      rw [← not_not (a := s.levels = []), ← ne_eq, ← inTransaction_iff, htransacting]
      exact Bool.false_ne_true
    have hsave : s.savepoints = [] := by
      rw [Store.levels, List.append_eq_nil_iff] at hclosed
      exact List.map_eq_nil_iff.mp hclosed.1
    refine congrArg some (nested_pushed (l := { name := none, before := s.content }) ?_ rfl)
    rw [hclosed]
    simp [Store.levels, hsave]

theorem nested_commit (s : Store ν δ) : s.commit.map Store.nested = s.nested.commitAll := by
  rw [Store.commit, Nested.commitAll]
  simp only [Store.nested, levels_isEmpty]
  cases s.inTransaction with
  | false => rfl
  | true => rfl

theorem nested_rollback (s : Store ν δ) : s.rollback.map Store.nested = s.nested.rollbackAll := by
  rw [Store.rollback, Nested.rollbackAll, start_eq]
  simp only [Store.nested, Store.committed, start_eq]
  cases hlast : s.levels.getLast? with
  | none =>
    rw [List.getLast?_eq_none_iff.mp hlast]
    rfl
  | some o =>
    have hopen : s.levels.isEmpty = false := by
      cases hlevels : s.levels with
      | nil =>
        rw [hlevels] at hlast
        cases hlast
      | cons l outer => rfl
    rw [hopen]
    rfl

variable [DecidableEq ν]

/-- The levels from a name on are its savepoint and what is around it. -/
theorem openFrom_levels (name : ν) (s : Store ν δ) :
    openFrom name s.levels =
      match innermost name s.savepoints with
      | [] => []
      | p :: below => p.level :: ({ s with savepoints := below } : Store ν δ).levels := by
  obtain ⟨content, begun, savepoints⟩ := s
  simp only [Store.levels, openFrom, innermost]
  induction savepoints with
  | nil => cases begun <;> simp
  | cons p savepoints ih =>
    by_cases hp : p.name = name
    · simp [Savepoint.level, hp]
    · have hlevel : p.level.name ≠ some name := by simpa [Savepoint.level] using hp
      rw [List.map_cons, List.cons_append, List.dropWhile_cons_of_pos (by simpa using hlevel), ih,
        List.dropWhile_cons_of_pos (by simpa using hp)]

theorem levels_below {name : ν} {p : Savepoint ν δ} {below : List (Savepoint ν δ)}
    (h : innermost name s.savepoints = p :: below) :
    ({ s with savepoints := below } : Store ν δ).levels <:+ s.levels := by
  have hfrom := openFrom_levels name s
  rw [h] at hfrom
  exact outer_suffix hfrom

theorem nested_release (name : ν) (s : Store ν δ) :
    (s.release name).map Store.nested = s.nested.commit name := by
  have hfrom := openFrom_levels name s
  rw [Store.release, Nested.commit]
  simp only [Store.nested] at hfrom ⊢
  rw [hfrom]
  cases hsave : innermost name s.savepoints with
  | nil => rfl
  | cons p below => exact congrArg some (nested_of_suffix (levels_below hsave))

/-- To roll back to a savepoint and release it closes its level, with what it began with. -/
theorem nested_rollbackTo (name : ν) (s : Store ν δ) :
    ((s.rollbackTo name).bind (Store.release name)).map Store.nested = s.nested.rollback name := by
  have hfrom := openFrom_levels name s
  rw [Store.rollbackTo, Nested.rollback]
  simp only [Store.nested] at hfrom ⊢
  rw [hfrom]
  cases hsave : innermost name s.savepoints with
  | nil => rfl
  | cons p below =>
    have hsuffix : ({ s with content := p.before, savepoints := below } : Store ν δ).levels <:+
        s.levels := levels_below hsave
    simp only [Option.bind_some, release_innermost hsave]
    exact congrArg some (nested_of_suffix hsuffix)

end Store

end RSQLCipher.Library
