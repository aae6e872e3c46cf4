import RSQLCipher.Binding
import RSQLCipher.Library.Runs

namespace RSQLCipher.Sessions

open RSQLCipher.Library RSQLCipher.Values RSQLCipher.Statement RSQLCipher.Params
open RSQLCipher.DataFrame RSQLCipher.ResultImpl RSQLCipher.Stepping RSQLCipher.Course
open RSQLCipher.Fetching RSQLCipher.Binding SqliteResult

inductive Call where
  | bind (params : List Param)
  | fetch (nMax : Int)
  | getColumnInfo

/-- A result with what an observer knows of it: the groups and rows of the last binding
that returned, the rows returned since then, and the number of executions begun before
the last binding that was accepted. -/
structure Session (σ : Type) where
  result : SqliteResult σ
  groups : List (List Cell)
  truth : List Row
  delivered : List Row
  mark : Nat

variable {σ : Type}

/-- The rows that a fetch has returned; a fetch of no rows has none. -/
def fetchedRows (nMax : Int) (out : Fetched) : List Row := if nMax = 0 then [] else out.received

namespace Session

def bound (s : Session σ) (params : List Param) :
    EStateM.Result Fault (SqliteResult σ) Unit → Session σ
  | .ok _ r =>
    { result := r
      groups := allGroups params
      truth := rowsOf s.result.handle.stmt s.result.handle.db (allGroups params)
      delivered := []
      mark := s.result.handle.begun.length }
  | .error _ r =>
    { s with
      result := r
      mark := if Accepts s.result params then s.result.handle.begun.length else s.mark }

def fetched (s : Session σ) (nMax : Int) :
    EStateM.Result Fault (SqliteResult σ) Fetched → Session σ
  | .ok out r => { s with result := r, delivered := s.delivered ++ fetchedRows nMax out }
  | .error _ r => { s with result := r }

def looked (s : Session σ) :
    EStateM.Result Fault (SqliteResult σ) (List (String × String)) → Session σ
  | .ok _ r => { s with result := r }
  | .error _ r => { s with result := r }

def next (env : Environment) (s : Session σ) : Call → Session σ
  | .bind params => s.bound params (dbBind env params s.result)
  | .fetch nMax => s.fetched nMax (fetch env nMax s.result)
  | .getColumnInfo => s.looked (getColumnInfo env s.result)

/-- The session that a new result begins: without parameters, one execution is due. -/
def opened (stmt : Stmt σ) (db : σ) (r : SqliteResult σ) : Session σ :=
  let groups := if stmt.parameters = [] then [[]] else []
  { result := r, groups := groups, truth := rowsOf stmt db groups, delivered := [], mark := 0 }

def start (env : Environment) (stmt : Stmt σ) (db : σ) (totalChanges : Nat)
    (withAltTypes : Bool) : Option (Session σ) :=
  match create env (initial stmt db totalChanges withAltTypes) with
  | .ok _ r => some (opened stmt db r)
  | .error _ _ => none

def begun (s : Session σ) : List (List Cell) := s.result.handle.begun.drop s.mark

end Session

theorem next_getColumnInfo (env : Environment) (s : Session σ) :
    ∃ types, s.next env .getColumnInfo = { s with result := retyped s.result types } := by
  obtain ⟨out, types, h⟩ := getColumnInfo_spec env s.result
  exact ⟨types, by simp only [Session.next, h, Session.looked]⟩

theorem next_fetch_none (env : Environment) (s : Session σ) (h : s.result.ready = true) :
    ∃ out types, fetch env 0 s.result = .ok out (retyped s.result types) ∧
      s.next env (.fetch 0) = { s with result := retyped s.result types } := by
  obtain ⟨out, types, hpeek, -⟩ := peekFirstRow_spec env s.result
  have hfetch := (fetch_none env s.result h).trans hpeek
  refine ⟨out, types, hfetch, ?_⟩
  simp [Session.next, hfetch, Session.fetched, fetchedRows]

theorem next_fetch_notReady (env : Environment) (nMax : Int) (s : Session σ)
    (h : s.result.ready = false) : s.next env (.fetch nMax) = s := by
  simp only [Session.next, fetch_notReady env nMax s.result h, Session.fetched]

theorem next_bind_refused (env : Environment) (params : List Param) (s : Session σ)
    (h : ¬Accepts s.result params) : s.next env (.bind params) = s := by
  obtain ⟨e, he⟩ := dbBind_refused env params s.result h
  simp only [Session.next, he, Session.bound, if_neg h]

theorem next_fetch_ok (env : Environment) (nMax : Int) (hmax : nMax ≠ 0) (s : Session σ)
    {out : Fetched} {r : SqliteResult σ} (h : fetch env nMax s.result = .ok out r) :
    s.next env (.fetch nMax) =
      { s with result := r, delivered := s.delivered ++ out.received } := by
  simp [Session.next, h, Session.fetched, fetchedRows, hmax]

theorem next_fetch_error (env : Environment) (nMax : Int) (s : Session σ) {e : Fault}
    {r : SqliteResult σ} (h : fetch env nMax s.result = .error e r) :
    s.next env (.fetch nMax) = { s with result := r } := by
  simp only [Session.next, h, Session.fetched]

theorem fetch_spec (env : Environment) (nMax : Int) (hmax : nMax ≠ 0) (r : SqliteResult σ)
    (hs : Sized r) (hready : r.ready = true) :
    Ends (fun out r' => Returned env nMax r r' out) (fun _ r' => Lost env r r')
      (fetch env nMax r) := by
  rw [fetch_rows env nMax hmax r hready]
  exact fetchRows_spec env nMax hmax r hs

theorem sized_returned {env : Environment} {nMax : Int} {r r' : SqliteResult σ} {out : Fetched}
    (hs : Sized r) (hr : Returned env nMax r r' out) : Sized r' := by
  obtain ⟨t, types, hdelivered, rfl⟩ := hr.delivered
  have hsized := sized_kept (r := { r with nrows := r.nrows + out.received.length })
    ⟨hs.bindings, hs.params⟩ hdelivered.ahead.kept
  exact ⟨hsized.bindings, hsized.params⟩

theorem sized_lost {env : Environment} {r r' : SqliteResult σ} (hs : Sized r)
    (hl : Lost env r r') : Sized r' := by
  obtain ⟨m, hkept⟩ := hl.kept
  exact sized_kept (r := { r with nrows := m }) ⟨hs.bindings, hs.params⟩ hkept

/-- A call in a session, by what it can come to. -/
inductive Move (env : Environment) (s : Session σ) : Call → Session σ → Prop
  | same (c : Call) : Move env s c s
  | retyped (c : Call) (types : List DataType) :
      Move env s c { s with result := retyped s.result types }
  | bound (params : List Param) (r : SqliteResult σ) (accepts : Accepts s.result params)
      (h : Bound params s.result r) : Move env s (.bind params) (s.bound params (.ok () r))
  | bindFailed (params : List Param) (r : SqliteResult σ) (accepts : Accepts s.result params)
      (h : BindFailed env params s.result r) : Move env s (.bind params)
        { s with result := r, mark := s.result.handle.begun.length }
  | returned (nMax : Int) (hmax : nMax ≠ 0) (ready : s.result.ready = true) (out : Fetched)
      (r : SqliteResult σ) (h : Returned env nMax s.result r out) : Move env s (.fetch nMax)
        { s with result := r, delivered := s.delivered ++ out.received }
  | lost (nMax : Int) (hmax : nMax ≠ 0) (ready : s.result.ready = true) (r : SqliteResult σ)
      (h : Lost env s.result r) : Move env s (.fetch nMax) { s with result := r }

theorem next_move (env : Environment) (s : Session σ) (hs : Sized s.result) (c : Call) :
    Move env s c (s.next env c) := by
  cases c with
  | getColumnInfo =>
    obtain ⟨types, hnext⟩ := next_getColumnInfo env s
    rw [hnext]
    exact .retyped _ types
  | bind params =>
    by_cases ha : Accepts s.result params
    · have hbind := dbBind_spec env params s.result hs ha
      cases hrun : dbBind env params s.result with
      | ok u r =>
        rw [hrun] at hbind
        simp only [Session.next, hrun]
        exact .bound params r ha hbind
      | error e r =>
        rw [hrun] at hbind
        simp only [Session.next, hrun, Session.bound, if_pos ha]
        exact .bindFailed params r ha hbind
    · rw [next_bind_refused env params s ha]
      exact .same _
  | fetch nMax =>
    cases hready : s.result.ready with
    | false =>
      rw [next_fetch_notReady env nMax s hready]
      exact .same _
    | true =>
      by_cases hmax : nMax = 0
      · obtain ⟨out, types, -, hnext⟩ := next_fetch_none env s hready
        rw [hmax, hnext]
        exact .retyped _ types
      · have hfetch := fetch_spec env nMax hmax s.result hs hready
        cases hrun : fetch env nMax s.result with
        | ok out r =>
          rw [hrun] at hfetch
          rw [next_fetch_ok env nMax hmax s hrun]
          exact .returned nMax hmax hready out r hfetch
        | error e r =>
          rw [hrun] at hfetch
          rw [next_fetch_error env nMax s hrun]
          exact .lost nMax hmax hready r hfetch

theorem sized_move {env : Environment} {s s' : Session σ} {c : Call} (hs : Sized s.result)
    (h : Move env s c s') : Sized s'.result := by
  cases h with
  | same => exact hs
  | retyped => exact ⟨hs.bindings, hs.params⟩
  | bound params r _ h => exact h.ready.sized
  | bindFailed params r _ h => exact h.sized
  | returned nMax _ _ out r h => exact sized_returned hs h
  | lost nMax _ _ r h => exact sized_lost hs h

inductive Started (stmt : Stmt σ) (db : σ) : Session σ → Prop
  | query (h0 : stmt.parameters = []) (r : SqliteResult σ) (ready : Ready db [] [[]] r)
      (groups : r.groups = 0) (hstmt : r.handle.stmt = stmt) :
    Started stmt db (Session.opened stmt db r)
  | unbound (h0 : stmt.parameters ≠ []) (totalChanges : Nat) (withAltTypes : Bool) :
      Started stmt db (Session.opened stmt db (initial stmt db totalChanges withAltTypes))

theorem started_start {env : Environment} {stmt : Stmt σ} {db : σ} {totalChanges : Nat}
    {withAltTypes : Bool} {s : Session σ}
    (h : Session.start env stmt db totalChanges withAltTypes = some s) : Started stmt db s := by
  by_cases h0 : stmt.parameters = []
  · have hcreate := create_spec env stmt db totalChanges withAltTypes h0
    cases hrun : create env (initial stmt db totalChanges withAltTypes) with
    | error e r => simp [Session.start, hrun] at h
    | ok u r =>
      simp only [Session.start, hrun, Option.some.injEq] at h
      rw [hrun] at hcreate
      rw [← h]
      exact .query h0 r hcreate.1 hcreate.2.1 hcreate.2.2
  · have hrun := create_params env (initial stmt db totalChanges withAltTypes)
      (by simpa [nparams, initial, Handle.prepared] using h0)
    simp only [Session.start, hrun, Option.some.injEq] at h
    rw [← h]
    exact .unbound h0 totalChanges withAltTypes

theorem sized_started {stmt : Stmt σ} {db : σ} {s : Session σ} (h : Started stmt db s) :
    Sized s.result := by
  cases h with
  | query _ r hready => exact hready.sized
  | unbound _ totalChanges withAltTypes => exact sized_initial stmt db totalChanges withAltTypes

theorem sized_runCalls {env : Environment} {stmt : Stmt σ} {db : σ} {totalChanges : Nat}
    {withAltTypes : Bool} {s : Session σ}
    (h : Session.start env stmt db totalChanges withAltTypes = some s) (calls : List Call) :
    Sized (runCalls (Session.next env) s calls).result :=
  invariant_runCalls (fun s => Sized s.result)
    (fun s c hs _ => sized_move hs (next_move env s hs c)) (sized_started (started_start h)) calls
    (along_of_forall _ s calls fun _ (_ : _ ∈ calls) => trivial)

end RSQLCipher.Sessions
