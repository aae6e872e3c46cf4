import RSQLCipher.Transactions
import RSQLCipher.Library.Levels
import RSQLCipher.Library.Runs

namespace RSQLCipher.NestedTransactions

open RSQLCipher.Library RSQLCipher.Transactions

variable {ρ : Type}

/-- What a program does with a connection: a change of the data, or one of the three
functions, with a name or without. -/
inductive Call (ρ : Type) where
  | change (c : Change ρ)
  | begin (name : Option String)
  | commit (name : Option String)
  | rollback (name : Option String)
deriving DecidableEq, Repr

def Call.run (faults : Faults ρ) : Call ρ → R ρ Unit
  | .change c => dbExecute faults (.change c)
  | .begin name => dbBegin faults none name
  | .commit name => dbCommit faults none name
  | .rollback name => dbRollback faults none name

/-- The session after a call, also after one that raised an error. -/
def afterCall (faults : Faults ρ) (s : Session ρ) (call : Call ρ) : Session ρ :=
  match call.run faults s with
  | .ok _ s' => s'
  | .error _ s' => s'

def after (faults : Faults ρ) (s : Session ρ) (calls : List (Call ρ)) : Session ρ :=
  runCalls (afterCall faults) s calls

/-- What the call is for. A transaction without a name is only begun outside of all others. -/
def Call.act : Call ρ → Nested String (Database ρ) → Option (Nested String (Database ρ))
  | .change c, n => (c.run n.content).map fun content => n.change content
  | .begin none, n => if n.levels.isEmpty then some (n.begin none) else none
  | .begin (some name), n => some (n.begin (some name.toLower))
  | .commit none, n => n.commitAll
  | .commit (some name), n => n.commit name.toLower
  | .rollback none, n => n.rollbackAll
  | .rollback (some name), n => n.rollback name.toLower

/-- Whether SQLite refuses the statement of a call. A rollback to an open savepoint, and the
release after it, are not refused. -/
def Call.refused (faults : Faults ρ) (s : Session ρ) : Call ρ → Bool
  | .change c => faults.fails s.history (.change c)
  | .begin name => faults.fails s.history (name.elim .begin .savepoint)
  | .commit name => faults.fails s.history (name.elim .commit .release)
  | .rollback none => faults.fails s.history .rollback
  | .rollback (some _) => false

/-- A call returns exactly where it is not refused and can act, and has then acted; otherwise
it raises an error and changes nothing. -/
def Acts (faults : Faults ρ) (s : Session ρ) (call : Call ρ) : Prop :=
  Ends
    (fun _ s' => call.refused faults s = false ∧ call.act s.store.nested = some s'.store.nested)
    (fun _ s' => s' = s ∧ (call.refused faults s = true ∨ call.act s.store.nested = none))
    (call.run faults s)

section Calls

variable {faults : Faults ρ} {s s' : Session ρ}

theorem execute_nested (faults : Faults ρ) {stmt : Statement ρ}
    {act : Nested String (Database ρ) → Option (Nested String (Database ρ))}
    (h : (exec s.store stmt).map Store.nested = act s.store.nested) :
    (∃ s', dbExecute faults stmt s = .ok () s' ∧ faults.fails s.history stmt = false ∧
      act s.store.nested = some s'.store.nested) ∨
      (dbExecute faults stmt s = .error .sqlite s ∧
        (faults.fails s.history stmt = true ∨ act s.store.nested = none)) := by
  obtain ⟨store, hfails, hexec, hrun⟩ | ⟨hrefused, hrun⟩ := dbExecute_cases faults stmt s
  · rw [hexec] at h
    exact .inl ⟨_, hrun, hfails, h.symm⟩
  · refine .inr ⟨hrun, hrefused.imp id ?_⟩
    intro hnone
    rw [hnone] at h
    exact h.symm

/-- Both statements of a named rollback run, or the first finds no savepoint. -/
theorem rollback_nested (faults : Faults ρ) (s : Session ρ) (name : String) :
    (∃ s', dbRollback faults none (some name) s = .ok () s' ∧
      s.store.nested.rollback name.toLower = some s'.store.nested) ∨
    (dbRollback faults none (some name) s = .error .sqlite s ∧
      s.store.nested.rollback name.toLower = none) := by
  have hnested := nested_rollbackTo name.toLower s.store
  rw [dbRollback_named]
  cases hto : s.store.rollbackTo name.toLower with
  | none =>
    rw [hto] at hnested
    have hrun : dbExecute faults (.rollbackTo name) s = .error .sqlite s := by
      simp [dbExecute, faults.rollbackTo, exec, hto]
    exact .inr ⟨bind_error hrun, hnested.symm⟩
  | some store =>
    rw [hto, Option.bind_some] at hnested
    have hrun : dbExecute faults (.rollbackTo name) s =
        .ok () { store := store, history := .rollbackTo name :: s.history } := by
      simp [dbExecute, faults.rollbackTo, exec, hto]
    rw [bind_ok hrun]
    obtain ⟨released, hrelease⟩ := release_of_rollbackTo hto
    rw [hrelease] at hnested
    refine .inl ⟨{ store := released, history := .release name :: .rollbackTo name :: s.history },
      ?_, hnested.symm⟩
    simp [dbExecute, faults.releaseAfter, exec, hrelease]

/-- The step lemma. -/
theorem call_acts (faults : Faults ρ) (call : Call ρ) (s : Session ρ) : Acts faults s call := by
  have hone : ∀ stmt, (exec s.store stmt).map Store.nested = call.act s.store.nested →
      call.run faults = dbExecute faults stmt →
      call.refused faults s = faults.fails s.history stmt → Acts faults s call := by
    intro stmt hexec hrun hrefused
    rw [Acts, hrun, hrefused]
    obtain ⟨s', hok, hfails, hact⟩ | ⟨herror, hnot⟩ := execute_nested faults hexec
    · rw [hok]
      exact ⟨hfails, hact⟩
    · rw [herror]
      exact ⟨rfl, hnot⟩
  cases call with
  | change c =>
    refine hone (.change c) ?_ rfl rfl
    simp only [exec, Option.map_map, Call.act]
    congr 1
    funext content
    exact nested_content s.store content
  | begin name =>
    cases name with
    | none => exact hone .begin (nested_begin s.store) rfl rfl
    | some name =>
      exact hone (.savepoint name) (congrArg some (nested_savepoint _ s.store)) rfl rfl
  | commit name =>
    cases name with
    | none => exact hone .commit (nested_commit s.store) rfl rfl
    | some name => exact hone (.release name) (nested_release _ s.store) rfl rfl
  | rollback name =>
    cases name with
    | none => exact hone .rollback (nested_rollback s.store) rfl rfl
    | some name =>
      -- the two statements of the rollback are not refused, so it can only find no savepoint
      rw [Acts]
      obtain ⟨s', hok, hact⟩ | ⟨herror, hnone⟩ := rollback_nested faults s name
      · change Ends _ _ (dbRollback faults none (some name) s)
        rw [hok]
        exact ⟨rfl, hact⟩
      · change Ends _ _ (dbRollback faults none (some name) s)
        rw [herror]
        exact ⟨rfl, .inr hnone⟩

theorem afterCall_cases (faults : Faults ρ) (call : Call ρ) (s : Session ρ) :
    call.act s.store.nested = some (afterCall faults s call).store.nested ∨
      afterCall faults s call = s := by
  have hacts := call_acts faults call s
  rw [Acts] at hacts
  rw [afterCall]
  cases hrun : call.run faults s with
  | ok u s' =>
    rw [hrun] at hacts
    exact .inl hacts.2
  | error e s' =>
    rw [hrun] at hacts
    exact .inr hacts.1

end Calls

section Runs

variable {faults : Faults ρ} {s : Session ρ} {calls : List (Call ρ)}

theorem after_append (faults : Faults ρ) (s : Session ρ) (calls : List (Call ρ)) (call : Call ρ) :
    after faults s (calls ++ [call]) = afterCall faults (after faults s calls) call := by
  simp only [after, runCalls, List.foldl_append, List.foldl_cons, List.foldl_nil]

/-- A call opens one level, or closes levels from the innermost on. -/
theorem levels_of_act {call : Call ρ} {n n' : Nested String (Database ρ)}
    (h : call.act n = some n') :
    n'.levels <:+ n.levels ∨ ∃ name, call = .begin name ∧
      n'.levels = { name := name.map String.toLower, before := n.content } :: n.levels := by
  cases call with
  | change c =>
    simp only [Call.act, Option.map_eq_some_iff] at h
    obtain ⟨content, -, rfl⟩ := h
    exact .inl List.suffix_rfl
  | begin name =>
    refine .inr ⟨name, rfl, ?_⟩
    cases name with
    | none =>
      simp only [Call.act] at h
      split at h
      · cases h
        rfl
      · cases h
    | some name =>
      cases h
      rfl
  | commit name =>
    left
    cases name with
    | none =>
      rw [levels_commitAll h]
      exact List.nil_suffix
    | some name => exact levels_commit h
  | rollback name =>
    left
    cases name with
    | none =>
      rw [levels_rollbackAll h]
      exact List.nil_suffix
    | some name => exact levels_rollback h

/-- Every level that is open has been opened by a call, with the content and inside of the
levels that there were then. -/
theorem opened (faults : Faults ρ) (hclosed : s.store.levels = []) (calls : List (Call ρ))
    {l : Level String (Database ρ)} {outer : List (Level String (Database ρ))}
    (hopen : l :: outer <:+ (after faults s calls).store.levels) :
    ∃ earlier name later, calls = earlier ++ .begin name :: later ∧
      l.name = name.map String.toLower ∧
      (after faults s earlier).store.content = l.before ∧
      (after faults s earlier).store.levels = outer := by
  induction calls using List.reverseRecOn with
  | nil =>
    simp only [after, runCalls, List.foldl_nil, hclosed, List.suffix_nil] at hopen
    cases hopen
  | append_singleton calls call ih =>
    have hearlier : l :: outer <:+ (after faults s calls).store.levels →
        ∃ earlier name later, calls ++ [call] = earlier ++ .begin name :: later ∧
          l.name = name.map String.toLower ∧
          (after faults s earlier).store.content = l.before ∧
          (after faults s earlier).store.levels = outer := by
      intro hsuffix
      obtain ⟨earlier, name, later, hcalls, hlevel⟩ := ih hsuffix
      refine ⟨earlier, name, later ++ [call], ?_, hlevel⟩
      rw [hcalls, List.append_assoc, List.cons_append]
    rw [after_append] at hopen
    obtain hact | hsame := afterCall_cases faults call (after faults s calls)
    · obtain hsuffix | ⟨name, rfl, hlevels⟩ := levels_of_act hact
      · exact hearlier (hopen.trans hsuffix)
      · have hpushed : l :: outer <:+
            { name := name.map String.toLower, before := (after faults s calls).store.content } ::
              (after faults s calls).store.levels := hlevels ▸ hopen
        obtain heq | hsuffix := List.suffix_cons_iff.mp hpushed
        · obtain ⟨rfl, rfl⟩ := List.cons.inj heq
          exact ⟨calls, name, [], rfl, rfl, rfl, rfl⟩
        · exact hearlier hsuffix
    · rw [hsame] at hopen
      exact hearlier hopen

end Runs

def Call.begins : Call ρ → Option String
  | .begin (some name) => some name.toLower
  | _ => none

/-- The names that the calls begin are pairwise different, without regard to ASCII case. -/
def DistinctNames (calls : List (Call ρ)) : Prop := (calls.filterMap Call.begins).Nodup

instance (calls : List (Call ρ)) : Decidable (DistinctNames calls) :=
  inferInstanceAs (Decidable (List.Nodup _))

def IsOpen (name : String) (s : Session ρ) : Prop :=
  ∃ l ∈ s.store.levels, l.name = some name.toLower

/-- What other connections see: the permanent tables, as they have been committed. -/
def othersSee (s : Session ρ) : List (Table ρ) := s.store.committed.main

theorem begins_unique {calls earlier earlier' later later' : List (Call ρ)} {name name' : String}
    (hdistinct : DistinctNames calls) (h : calls = earlier ++ .begin (some name) :: later)
    (h' : calls = earlier' ++ .begin (some name') :: later') (hname : name.toLower = name'.toLower) :
    earlier = earlier' := by
  have hnot : ∀ {first second third : List (Call ρ)} {x y : String}, x.toLower = y.toLower →
      ¬DistinctNames (first ++ .begin (some x) :: (second ++ .begin (some y) :: third)) := by
    intro first second third x y hxy hnodup
    simp [DistinctNames, Call.begins, List.nodup_append, hxy] at hnodup
  rw [h] at h' hdistinct
  obtain ⟨middle, hearlier, hrest⟩ | ⟨middle, hearlier, hrest⟩ := List.append_eq_append_iff.mp h'
  · cases middle with
    | nil => rw [hearlier, List.append_nil]
    | cons c middle =>
      obtain ⟨rfl, hlater⟩ := List.cons.inj hrest
      rw [hlater] at hdistinct
      exact absurd hdistinct (hnot hname)
  · cases middle with
    | nil => rw [hearlier, List.append_nil]
    | cons c middle =>
      obtain ⟨rfl, hlater⟩ := List.cons.inj hrest
      rw [hearlier, List.append_assoc, List.cons_append] at hdistinct
      exact absurd hdistinct (hnot hname.symm)

section Open

variable {faults : Faults ρ} {s : Session ρ} {calls earlier later : List (Call ρ)} {name : String}

/-- The level of a name that is open, and what there was when it was opened. -/
theorem opened_name (hclosed : s.store.levels = []) (hdistinct : DistinctNames calls)
    (hcalls : calls = earlier ++ .begin (some name) :: later)
    (hopen : IsOpen name (after faults s calls)) :
    ∃ l, openFrom name.toLower (after faults s calls).store.levels =
        l :: (after faults s earlier).store.levels ∧
      l.before = (after faults s earlier).store.content := by
  obtain ⟨l, outer, hfrom, hname⟩ := openFrom_of_mem hopen
  have hsuffix := openFrom_suffix name.toLower (after faults s calls).store.levels
  rw [hfrom] at hsuffix
  obtain ⟨earlier', begun, later', hcalls', hbegun, hcontent, hlevels⟩ :=
    opened faults hclosed calls hsuffix
  rw [hname] at hbegun
  obtain ⟨x, rfl, hx⟩ := Option.map_eq_some_iff.mp hbegun.symm
  obtain rfl := begins_unique hdistinct hcalls hcalls' hx.symm
  exact ⟨l, by rw [hfrom, hlevels], hcontent.symm⟩

theorem rollback_open (hclosed : s.store.levels = []) (hdistinct : DistinctNames calls)
    (hcalls : calls = earlier ++ .begin (some name) :: later)
    (hopen : IsOpen name (after faults s calls)) :
    ∃ s', dbRollback faults none (some name) (after faults s calls) = .ok () s' ∧
      s'.store = (after faults s earlier).store := by
  obtain ⟨l, hfrom, hbefore⟩ := opened_name hclosed hdistinct hcalls hopen
  obtain ⟨s', hrun, hact⟩ | ⟨-, hact⟩ := rollback_nested faults (after faults s calls) name
  · refine ⟨s', hrun, ?_⟩
    simp only [Nested.rollback, Store.nested, hfrom, Nested.next, Option.some.injEq,
      Nested.mk.injEq] at hact
    exact store_ext (hact.2.1.symm.trans hbefore) hact.2.2.symm
  · simp only [Nested.rollback, Store.nested, hfrom] at hact
    cases hact

/-- The release of an open savepoint keeps the content, or is refused. -/
theorem commit_open (hclosed : s.store.levels = []) (hdistinct : DistinctNames calls)
    (hcalls : calls = earlier ++ .begin (some name) :: later)
    (hopen : IsOpen name (after faults s calls)) :
    (∃ s', dbCommit faults none (some name) (after faults s calls) = .ok () s' ∧
      s'.store =
        { (after faults s earlier).store with content := (after faults s calls).store.content }) ∨
    (faults.fails (after faults s calls).history (.release name) = true ∧
      dbCommit faults none (some name) (after faults s calls) =
        .error .sqlite (after faults s calls)) := by
  obtain ⟨l, hfrom, -⟩ := opened_name hclosed hdistinct hcalls hopen
  have hexec : (exec (after faults s calls).store (.release name)).map Store.nested =
      (after faults s calls).store.nested.commit name.toLower := nested_release _ _
  rw [dbCommit_named]
  obtain ⟨s', hrun, -, hact⟩ | ⟨hrun, hrefused⟩ := execute_nested faults hexec
  · refine .inl ⟨s', hrun, ?_⟩
    simp only [Nested.commit, Store.nested, hfrom, Nested.next, Option.some.injEq,
      Nested.mk.injEq] at hact
    exact store_ext hact.2.1.symm hact.2.2.symm
  · refine .inr ⟨hrefused.resolve_right ?_, hrun⟩
    simp [Nested.commit, Store.nested, hfrom]

end Open

/-- What is promised of a run of calls, from a session in which no level is open. -/
structure NestedWorks (faults : Faults ρ) (s : Session ρ) (calls : List (Call ρ)) : Prop where
  acts : Along (afterCall faults) (Acts faults) s calls
  rollback : ∀ earlier name later, calls = earlier ++ .begin (some name) :: later →
    IsOpen name (after faults s calls) →
    ∃ s', dbRollback faults none (some name) (after faults s calls) = .ok () s' ∧
      s'.store = (after faults s earlier).store
  commit : ∀ earlier name later, calls = earlier ++ .begin (some name) :: later →
    IsOpen name (after faults s calls) →
    (∃ s', dbCommit faults none (some name) (after faults s calls) = .ok () s' ∧
      s'.store =
        { (after faults s earlier).store with content := (after faults s calls).store.content }) ∨
    (faults.fails (after faults s calls).history (.release name) = true ∧
      dbCommit faults none (some name) (after faults s calls) =
        .error .sqlite (after faults s calls))
  hidden : (after faults s calls).store.levels ≠ [] →
    ∃ earlier name later, calls = earlier ++ .begin name :: later ∧
      (after faults s earlier).store.levels = [] ∧
      othersSee (after faults s calls) = (after faults s earlier).store.content.main
  published : (after faults s calls).store.levels = [] →
    othersSee (after faults s calls) = (after faults s calls).store.content.main
  transacting : sqliteIsTransacting (after faults s calls) = true ↔
    (after faults s calls).store.levels ≠ []

/-- Nested transactions by savepoints, for any sequence of calls. -/
theorem nested_transactions (faults : Faults ρ) (s : Session ρ)
    (hclosed : s.store.inTransaction = false) (calls : List (Call ρ))
    (hdistinct : DistinctNames calls) : NestedWorks faults s calls := by
  have hnone : s.store.levels = [] := by
    have hiff := inTransaction_iff (s := s.store)
    rw [hclosed] at hiff
    simpa using hiff
  constructor
  · exact along_of_all _ (fun s call => call_acts faults call s) s calls
  · intro earlier name later hcalls hopen
    exact rollback_open hnone hdistinct hcalls hopen
  · intro earlier name later hcalls hopen
    exact commit_open hnone hdistinct hcalls hopen
  · intro hopen
    obtain ⟨inner, l, hlevels⟩ := (List.eq_nil_or_concat' _).resolve_left hopen
    obtain ⟨earlier, name, later, hcalls, -, hcontent, houter⟩ :=
      opened faults hnone calls ⟨inner, hlevels.symm⟩
    refine ⟨earlier, name, later, hcalls, houter, ?_⟩
    rw [othersSee, Store.committed, start_eq, hlevels, List.getLast?_concat, hcontent]
    rfl
  · intro hclosed
    rw [othersSee, Store.committed, start_eq, hclosed]
    rfl
  · exact inTransaction_iff

def emptySession : Session Nat where
  store := { content := { temp := [], main := [] }, begun := none, savepoints := [] }
  history := []

theorem nested_transactions_two :
    NestedWorks noFaults emptySession [.begin (some "tx"), .change (.createTable "a" [] false),
      .begin (some "tx2"), .change (.createTable "b" [] false), .rollback (some "TX2")] :=
  nested_transactions noFaults emptySession rfl _ (by decide +kernel)

end RSQLCipher.NestedTransactions
