import RSQLCipher.Transactions

namespace RSQLCipher.AppendTable

open RSQLCipher.Library RSQLCipher.Transactions

variable {ρ : Type}

structure RFrame (ρ : Type) where
  names : List String
  rows : List ρ
deriving DecidableEq, Repr

/-- A function with an exit handler. The method of DBI that `callNextMethod` finds is a
parameter. -/
def dbAppendTable (faults : Faults ρ) (callNextMethod : String → RFrame ρ → R ρ Nat)
    (draw : Draw) (name : String) (value : RFrame ρ) : R ρ Nat := function do
  let savepointId := getSavepointId "dbAppendTable" draw
  dbBegin faults none (some savepointId)
  onExit (some (dbRollback faults none (some savepointId)))
  let out ← callNextMethod name value
  onExit none
  dbCommit faults none (some savepointId)
  return out

variable (faults : Faults ρ) (accepts : RFrame ρ → Bool)

/-- A call that raises has no effect, and one that returns adds the rows. -/
def Atomic (name : String) (rows : List ρ) (s : Session ρ) :
    EStateM.Result Raised (Session ρ) Nat → Prop :=
  Ends
    (fun _ s' => s.store.content.has name = true ∧
      s'.store = { s.store with content := s.store.content.addRows name rows })
    (fun _ s' => s'.store = s.store)

instance [DecidableEq ρ] (name : String) (rows : List ρ) (s : Session ρ)
    (r : EStateM.Result Raised (Session ρ) Nat) : Decidable (Atomic name rows s r) :=
  inferInstanceAs (Decidable (Ends _ _ r))

def noneFails : List (Statement ρ) → List (Statement ρ) → Bool
  | _, [] => true
  | history, stmt :: later => !faults.fails history stmt && noneFails (stmt :: history) later

/-- A session in which changes of the content have been made by statements. -/
def changed (s : Session ρ) (content : Database ρ) (stmts : List (Statement ρ)) : Session ρ where
  store := { s.store with content := content }
  history := stmts.reverse ++ s.history

/-- What is documented of a method of DBI that executes statements: when it accepts its
arguments and no statement fails, it returns and the content is changed; otherwise it raises
an error, and some changes may have been made. -/
structure Executes {α : Type} (method : R ρ α) (outcome : Option (α × Database ρ))
    (stmts : List (Statement ρ)) (s : Session ρ) : Prop where
  returns : ∀ a content, outcome = some (a, content) → noneFails faults s.history stmts = true →
    method s = .ok a (changed s content stmts)
  raises : outcome = none ∨ noneFails faults s.history stmts = false →
    ∃ e content later, method s = .error e (changed s content later)

def inserts (name : String) (rows : List ρ) : List (Statement ρ) :=
  rows.map fun row => .change (.insert name row)

/-- The method of DBI checks its arguments, prepares an `INSERT` and executes it for every row;
it returns the number of rows. -/
def Appends (callNextMethod : String → RFrame ρ → R ρ Nat) : Prop :=
  ∀ name value s, Executes faults (callNextMethod name value)
    (if accepts value && s.store.content.has name then
      some (value.rows.length, s.store.content.addRows name value.rows) else none)
    (.change (.prepareInsert name) :: inserts name value.rows) s

def appendStatements (draw : Draw) (name : String) (rows : List ρ) : List (Statement ρ) :=
  .savepoint (getSavepointId "dbAppendTable" draw) :: .change (.prepareInsert name) ::
    inserts name rows

/-- Nothing fails up to the commit, and the commit does. -/
def CommitFails (draw : Draw) (name : String) (value : RFrame ρ) (s : Session ρ) : Prop :=
  (accepts value = true ∧ s.store.content.has name = true ∧
    noneFails faults s.history (appendStatements draw name value.rows) = true) ∧
    faults.fails ((appendStatements draw name value.rows).reverse ++ s.history)
      (.release (getSavepointId "dbAppendTable" draw)) = true

section Rows

variable {name : String} {rows more : List ρ} {l : List (Table ρ)} {d : Database ρ}

theorem any_addRows : (Transactions.addRows name rows l).any (Table.named name) =
    l.any (Table.named name) := by
  rw [Transactions.addRows, List.any_map]
  congr 1
  funext t
  simp only [Function.comp]
  split <;> rfl

@[simp] theorem has_addRows : (d.addRows name rows).has name = d.has name := by
  unfold Database.addRows Database.change Database.has
  split <;> simp [any_addRows]

theorem addRows_nil : d.addRows name [] = d := by
  have hsame : ∀ l : List (Table ρ), Transactions.addRows name [] l = l := by
    intro l
    rw [Transactions.addRows]
    conv_rhs => rw [← List.map_id l]
    apply List.map_congr_left
    intro t _
    simp
  unfold Database.addRows Database.change
  split <;> rw [hsame]

theorem addRows_addRows :
    (d.addRows name rows).addRows name more = d.addRows name (rows ++ more) := by
  have htwice : ∀ l : List (Table ρ), Transactions.addRows name more
      (Transactions.addRows name rows l) = Transactions.addRows name (rows ++ more) l := by
    intro l
    rw [Transactions.addRows, Transactions.addRows, List.map_map]
    apply List.map_congr_left
    intro t _
    by_cases ht : t.named name = true
    · have ht' : Table.named name { t with rows := t.rows ++ rows } = true := ht
      simp [ht, ht']
    · simp [ht]
  unfold Database.addRows Database.change
  by_cases htemp : d.temp.any (Table.named name) = true
  · simp [htemp, any_addRows, htwice]
  · simp [htemp, htwice]

end Rows

section Spec

variable {faults accepts} {draw : Draw} {name : String} {value : RFrame ρ} {s : Session ρ}

@[simp] theorem changed_content (s : Session ρ) (content : Database ρ)
    (stmts : List (Statement ρ)) : (changed s content stmts).store.content = content := rfl

@[simp] theorem changed_changed (s : Session ρ) (content content' : Database ρ)
    (stmts later : List (Statement ρ)) :
    changed (changed s content stmts) content' later = changed s content' (stmts ++ later) := by
  simp [changed]

theorem dbExecute_change {c : Change ρ} {d : Database ρ} (hrun : c.run s.store.content = some d)
    (hfails : faults.fails s.history (.change c) = false) :
    dbExecute faults (.change c) s = .ok () (changed s d [.change c]) := by
  simp [dbExecute, hfails, exec, hrun, changed]

theorem dbExecute_fails {stmt : Statement ρ} (h : faults.fails s.history stmt = true) :
    dbExecute faults stmt s = .error .sqlite s := if_pos h

/-- The statements of the method of DBI all run. -/
def Accepted (faults : Faults ρ) (accepts : RFrame ρ → Bool) (history : List (Statement ρ))
    (name : String) (value : RFrame ρ) (d : Database ρ) : Prop :=
  accepts value = true ∧ d.has name = true ∧
    noneFails faults history (.change (.prepareInsert name) :: inserts name value.rows) = true

theorem executes_cases {α : Type} {method : R ρ α} {outcome : Option (α × Database ρ)}
    {stmts : List (Statement ρ)} (h : Executes faults method outcome stmts s) :
    (∃ a content, outcome = some (a, content) ∧ noneFails faults s.history stmts = true ∧
      method s = .ok a (changed s content stmts)) ∨
    ((outcome = none ∨ noneFails faults s.history stmts = false) ∧
      ∃ e content later, method s = .error e (changed s content later)) := by
  cases houtcome : outcome with
  | none => exact .inr ⟨.inl rfl, h.raises (.inl houtcome)⟩
  | some p =>
    obtain ⟨a, content⟩ := p
    cases hnone : noneFails faults s.history stmts with
    | false => exact .inr ⟨.inr rfl, h.raises (.inr hnone)⟩
    | true => exact .inl ⟨a, content, rfl, rfl, h.returns a content houtcome hnone⟩

variable {callNextMethod : String → RFrame ρ → R ρ Nat}

theorem appends_cases (happends : Appends faults accepts callNextMethod) (name : String)
    (value : RFrame ρ) (s : Session ρ) :
    (Accepted faults accepts s.history name value s.store.content ∧
      callNextMethod name value s = .ok value.rows.length
        (changed s (s.store.content.addRows name value.rows)
          (.change (.prepareInsert name) :: inserts name value.rows))) ∨
    (¬Accepted faults accepts s.history name value s.store.content ∧
      ∃ e content stmts, callNextMethod name value s = .error e (changed s content stmts)) := by
  obtain ⟨n, content, houtcome, hnone, hrun⟩ | ⟨hrefused, hrun⟩ :=
    executes_cases (happends name value s)
  · split at houtcome
    · rename_i hargs
      cases houtcome
      rw [Bool.and_eq_true] at hargs
      exact .inl ⟨⟨hargs.1, hargs.2, hnone⟩, hrun⟩
    · cases houtcome
  · refine .inr ⟨fun haccepted => ?_, hrun⟩
    obtain houtcome | hfails := hrefused
    · simp [haccepted.1, haccepted.2.1] at houtcome
    · exact Bool.false_ne_true (hfails.symm.trans haccepted.2.2)

theorem dbBegin_fails {id : String} (h : faults.fails s.history (.savepoint id) = true) :
    dbBegin faults none (some id) s = .error .sqlite s := by
  rw [dbBegin_named]
  exact dbExecute_fails h

def begun (s : Session ρ) (id : String) : Session ρ where
  store := s.store.savepoint id.toLower
  history := .savepoint id :: s.history

theorem dbBegin_ok {id : String} (h : faults.fails s.history (.savepoint id) = false) :
    dbBegin faults none (some id) s = .ok () (begun s id) := by
  simp [dbBegin_named, dbExecute, h, exec, begun]

theorem inside_changed (s : Session ρ) (id : String) (content : Database ρ)
    (stmts : List (Statement ρ)) :
    Inside id.toLower s.store (changed (begun s id) content stmts).store :=
  (inside_savepoint id.toLower s.store).content content

variable (faults) in
theorem dbRollback_changed (s : Session ρ) (id : String) (content : Database ρ)
    (stmts : List (Statement ρ)) :
    ∃ history, dbRollback faults none (some id) (changed (begun s id) content stmts) =
      .ok () { store := s.store, history := history } :=
  ⟨_, dbRollback_inside (inside_changed s id content stmts)⟩

variable (faults callNextMethod) in
theorem dbAppendTable_apply (draw : Draw) (name : String) (value : RFrame ρ) (s : Session ρ) :
    dbAppendTable faults callNextMethod draw name value s =
      match dbBegin faults none (some (getSavepointId "dbAppendTable" draw)) s with
      | .error e s => .error e s
      | .ok _ s =>
        match callNextMethod name value s with
        | .error e s =>
          match dbRollback faults none (some (getSavepointId "dbAppendTable" draw)) s with
          | .ok _ s => .error e s
          | .error e s => .error e s
        | .ok out s =>
          match dbCommit faults none (some (getSavepointId "dbAppendTable" draw)) s with
          | .error e s => .error e s
          | .ok _ s => .ok out s := by
  simp only [dbAppendTable, function, bind_apply, lift_apply, onExit_apply, pure_apply]
  cases dbBegin faults none (some (getSavepointId "dbAppendTable" draw)) s with
  | error e s => rfl
  | ok u s =>
    simp only
    cases callNextMethod name value s with
    | error e s =>
      simp only [Frame.leave]
      cases dbRollback faults none (some (getSavepointId "dbAppendTable" draw)) s with
      | error e s | ok u s => rfl
    | ok out s =>
      simp only
      cases dbCommit faults none (some (getSavepointId "dbAppendTable" draw)) s with
      | error e s | ok u s => rfl

/-- The call that its commit fails in leaves its rows and its savepoint behind. -/
theorem dbAppendTable_cases (happends : Appends faults accepts callNextMethod) (draw : Draw)
    (name : String) (value : RFrame ρ) (s : Session ρ) :
    (¬CommitFails faults accepts draw name value s ∧
      Atomic name value.rows s (dbAppendTable faults callNextMethod draw name value s)) ∨
    (CommitFails faults accepts draw name value s ∧ ∃ history,
      dbAppendTable faults callNextMethod draw name value s = .error .sqlite
        { store := { s.store.savepoint (getSavepointId "dbAppendTable" draw).toLower with
            content := s.store.content.addRows name value.rows }
          history := history }) := by
  set id := getSavepointId "dbAppendTable" draw with hid
  rw [dbAppendTable_apply, ← hid]
  cases hbegin : faults.fails s.history (.savepoint id) with
  | true =>
    rw [dbBegin_fails hbegin]
    refine .inl ⟨fun h => ?_, rfl⟩
    have hnone := h.1.2.2
    simp [appendStatements, noneFails, ← hid, hbegin] at hnone
  | false =>
    have hnone : noneFails faults s.history (appendStatements draw name value.rows) =
        noneFails faults (begun s id).history
          (.change (.prepareInsert name) :: inserts name value.rows) := by
      simp [appendStatements, noneFails, ← hid, hbegin, begun]
    rw [dbBegin_ok hbegin]
    obtain ⟨haccepted, hok⟩ | ⟨hrefused, e, content, stmts, herror⟩ :=
      appends_cases happends name value (begun s id)
    · have hcommit : (changed (begun s id) ((begun s id).store.content.addRows name value.rows)
          (.change (.prepareInsert name) :: inserts name value.rows)).history =
          (appendStatements draw name value.rows).reverse ++ s.history := by
        simp [changed, begun, appendStatements, ← hid]
      have hrelease := (inside_changed s id ((begun s id).store.content.addRows name value.rows)
        (.change (.prepareInsert name) :: inserts name value.rows)).release
      simp only [hok, dbCommit_named]
      cases hfails : faults.fails ((appendStatements draw name value.rows).reverse ++ s.history)
          (.release id) with
      | true =>
        rw [← hcommit] at hfails
        rw [dbExecute_fails hfails]
        refine .inr ⟨⟨⟨haccepted.1, haccepted.2.1, hnone.trans haccepted.2.2⟩, ?_⟩, _, rfl⟩
        rw [← hcommit, ← hid]
        exact hfails
      | false =>
        refine .inl ⟨fun h => ?_, ?_⟩
        · exact Bool.false_ne_true (hfails.symm.trans h.2)
        · rw [← hcommit] at hfails
          simp only [dbExecute, hfails, Bool.false_eq_true, if_false, exec, hrelease]
          exact ⟨haccepted.2.1, rfl⟩
    · simp only [herror]
      obtain ⟨history, hback⟩ := dbRollback_changed faults s id content stmts
      rw [hback]
      refine .inl ⟨fun h => hrefused ?_, rfl⟩
      exact ⟨h.1.1, h.1.2.1, hnone ▸ h.1.2.2⟩

end Spec

/-- Appending is atomic except where nothing fails but the commit. -/
theorem append_atomic_iff (faults : Faults ρ) (accepts : RFrame ρ → Bool)
    (callNextMethod : String → RFrame ρ → R ρ Nat)
    (happends : Appends faults accepts callNextMethod) (draw : Draw) (name : String)
    (value : RFrame ρ) (s : Session ρ) :
    Atomic name value.rows s (dbAppendTable faults callNextMethod draw name value s) ↔
      ¬CommitFails faults accepts draw name value s := by
  obtain ⟨hcommit, hatomic⟩ | ⟨hcommit, history, herror⟩ :=
    dbAppendTable_cases happends draw name value s
  · exact iff_of_true hatomic hcommit
  · refine iff_of_false (fun hatomic => ?_) (not_not.mpr hcommit)
    rw [herror] at hatomic
    have hsave := congrArg (fun store => store.savepoints.length) hatomic
    simp [Store.savepoint] at hsave

section Inserting

/-- A method that does what is documented of the one of DBI. -/
def insertEach (name : String) (value : RFrame ρ) : R ρ Nat := do
  if !accepts value then throw .called
  dbExecute faults (.change (.prepareInsert name))
  value.rows.forM fun row => dbExecute faults (.change (.insert name row))
  return value.rows.length

variable {faults accepts} {α β : Type} {s : Session ρ} {x : R ρ α} {f : α → R ρ β}
  {stmts later : List (Statement ρ)} {content : Database ρ}

theorem noneFails_append (faults : Faults ρ) (history stmts later : List (Statement ρ)) :
    noneFails faults history (stmts ++ later) =
      (noneFails faults history stmts && noneFails faults (stmts.reverse ++ history) later) := by
  induction stmts generalizing history with
  | nil => rfl
  | cons stmt stmts ih => simp [noneFails, ih, Bool.and_assoc]

theorem executes_pure (faults : Faults ρ) (s : Session ρ) (a : α) :
    Executes faults (pure a) (some (a, s.store.content)) [] s where
  returns := by
    rintro _ _ ⟨⟩ -
    rfl
  raises := by
    rintro (h | h) <;> cases h

theorem executes_change (faults : Faults ρ) (c : Change ρ) (s : Session ρ) :
    Executes faults (dbExecute faults (.change c))
      ((c.run s.store.content).map fun content => ((), content)) [.change c] s where
  returns := by
    intro _ content houtcome hnone
    obtain ⟨_, hrun, heq⟩ := Option.map_eq_some_iff.mp houtcome
    cases heq
    exact dbExecute_change hrun (by simpa [noneFails] using hnone)
  raises := by
    intro h
    refine ⟨.sqlite, s.store.content, [], ?_⟩
    obtain houtcome | hfails := h
    · obtain ⟨store, -, hexec, -⟩ | ⟨-, hrun⟩ := dbExecute_cases faults (.change c) s
      · rw [Option.map_eq_none_iff] at houtcome
        simp [exec, houtcome] at hexec
      · exact hrun
    · exact dbExecute_fails (by simpa [noneFails] using hfails)

/-- One method after another: the statements of both. -/
theorem executes_bind {a : α} {outcome : Option (β × Database ρ)}
    (hx : Executes faults x (some (a, content)) stmts s)
    (hf : Executes faults (f a) outcome later (changed s content stmts)) :
    Executes faults (x >>= f) outcome (stmts ++ later) s where
  returns := by
    intro b content' houtcome hnone
    rw [noneFails_append, Bool.and_eq_true] at hnone
    rw [bind_ok (hx.returns a content rfl hnone.1), hf.returns b content' houtcome hnone.2,
      changed_changed]
  raises := by
    intro h
    cases hnone : noneFails faults s.history stmts with
    | false =>
      obtain ⟨e, content', stmts', hrun⟩ := hx.raises (.inr hnone)
      exact ⟨e, content', stmts', bind_error hrun⟩
    | true =>
      rw [noneFails_append, hnone, Bool.true_and] at h
      obtain ⟨e, content', stmts', hrun⟩ := hf.raises h
      refine ⟨e, content', stmts ++ stmts', ?_⟩
      rw [bind_ok (hx.returns a content rfl hnone), hrun, changed_changed]

theorem executes_refused (hx : Executes faults x none stmts s) :
    Executes faults (x >>= f) none later s where
  returns := by
    rintro _ _ ⟨⟩
  raises _ := by
    obtain ⟨e, content', stmts', hrun⟩ := hx.raises (.inl rfl)
    exact ⟨e, content', stmts', bind_error hrun⟩

/-- The rows go in one by one. -/
theorem executes_rows {name : String} (rows : List ρ) (hhas : s.store.content.has name = true) :
    Executes faults (rows.forM fun row => dbExecute faults (.change (.insert name row)))
      (some ((), s.store.content.addRows name rows)) (inserts name rows) s := by
  induction rows generalizing s with
  | nil =>
    rw [addRows_nil]
    exact executes_pure faults s ()
  | cons row rows ih =>
    have hrow := executes_change faults (.insert name row) s
    rw [Change.run, if_pos hhas] at hrow
    have hrest := ih (s := changed s (s.store.content.addRows name [row])
      [.change (.insert name row)]) (by simpa using hhas)
    rw [changed_content, addRows_addRows] at hrest
    exact executes_bind hrow hrest

theorem appends_insertEach (faults : Faults ρ) (accepts : RFrame ρ → Bool) :
    Appends faults accepts (insertEach faults accepts) := by
  intro name value s
  cases haccepts : accepts value with
  | false =>
    refine ⟨by rintro _ _ ⟨⟩, fun _ => ⟨.called, s.store.content, [], ?_⟩⟩
    simp [insertEach, haccepts, changed]
  | true =>
    have hmethod : insertEach faults accepts name value = (do
        dbExecute faults (.change (.prepareInsert name))
        value.rows.forM fun row => dbExecute faults (.change (.insert name row))
        return value.rows.length) := by
      simp only [insertEach, haccepts]
      rfl
    have hprepare := executes_change faults (.prepareInsert name) s
    rw [hmethod]
    cases hhas : s.store.content.has name with
    | false =>
      simp only [Change.run, hhas] at hprepare
      exact executes_refused hprepare
    | true =>
      simp only [Change.run, hhas] at hprepare
      have hinsert : Executes faults (value.rows.forM fun row =>
          dbExecute faults (.change (.insert name row)))
          (some ((), s.store.content.addRows name value.rows)) (inserts name value.rows)
          (changed s s.store.content [.change (.prepareInsert name)]) :=
        executes_rows (s := changed s s.store.content _) value.rows hhas
      have hrows := executes_bind (f := fun _ => pure value.rows.length) hinsert
        (executes_pure faults _ value.rows.length)
      rw [List.append_nil] at hrows
      exact executes_bind hprepare hrows

end Inserting

/-- A commit that fails, as with a deferred constraint. -/
def deferred : Faults Nat where
  fails history stmt :=
    match stmt, history with
    | .release _, .rollbackTo _ :: _ => false
    | .release _, _ => true
    | _, _ => false
  rollbackTo _ _ := rfl
  releaseAfter _ _ := rfl

def withTable : Session Nat where
  store := { content := { temp := [], main := [⟨"t", [("x", "INTEGER")], []⟩] }
             begun := none, savepoints := [] }
  history := []

theorem append_atomic_iff_deferred :
    Atomic "t" [7] withTable (dbAppendTable deferred (insertEach deferred fun _ => true) ⟨1, "a"⟩
        "t" ⟨["x"], [7]⟩ withTable) ↔
      ¬CommitFails deferred (fun _ => true) ⟨1, "a"⟩ "t" ⟨["x"], [7]⟩ withTable :=
  append_atomic_iff deferred (fun _ => true) (insertEach deferred fun _ => true)
    (appends_insertEach deferred _) ⟨1, "a"⟩ "t" ⟨["x"], [7]⟩ withTable

theorem rows_left_behind :
    ¬∀ (faults : Faults Nat) (accepts : RFrame Nat → Bool)
      (callNextMethod : String → RFrame Nat → R Nat Nat),
      Appends faults accepts callNextMethod →
      ∀ (draw : Draw) (name : String) (value : RFrame Nat) (s : Session Nat),
        Atomic name value.rows s (dbAppendTable faults callNextMethod draw name value s) := by
  intro h
  have hrun := h deferred (fun _ => true) (insertEach deferred fun _ => true)
    (appends_insertEach deferred _) ⟨1, "a"⟩ "t" ⟨["x"], [7]⟩ withTable
  revert hrun
  decide +kernel

end RSQLCipher.AppendTable
