import RSQLCipher.Placeholders
import RSQLCipher.Library.OnExit
import RSQLCipher.Library.Runs

namespace RSQLCipher.Connections

open RSQLCipher.Library RSQLCipher.Values RSQLCipher.Statement RSQLCipher.Params
open RSQLCipher.DataFrame RSQLCipher.ResultImpl RSQLCipher.Placeholders

inductive CallbackKind where
  | integer (ms : Int)
  | function
deriving DecidableEq, Repr

structure Callback where
  id : Nat
  kind : CallbackKind
deriving DecidableEq, Repr

/-- What SQLite calls when a lock is held: nothing, its own callback with a timeout, or
`busy_callback_helper` with a data pointer. -/
inductive BusySlot where
  | none
  | timeout (ms : Int)
  | callback (data : Option Callback)
deriving DecidableEq, Repr

variable {σ : Type}

/-- A result that is open. `counted` are the changes that SQLite has counted during its
executions since the last binding; it is there for the specifications only. -/
structure OpenResult (σ : Type) where
  result : SqliteResult σ
  counted : Nat

/-- A connection of R: the `DbConnection`, what SQLite and R keep for it, the external
pointers of its results, of which the cleared ones are null, and `ref$result`. After
`sqlite3_close_v2` the database lives on for the results that are open. -/
structure Connection (σ : Type) where
  valid : Bool
  db : σ
  totalChanges : Nat
  withAltTypes : Bool
  slot : BusySlot
  busyCallback : Option Callback
  preserved : List Callback
  nextId : Nat
  results : List (Option (OpenResult σ))
  ref : Option Nat

abbrev ConnectionM (σ : Type) := EStateM Fault (Connection σ)

namespace Connection

def opened (c : Connection σ) (i : Nat) : Option (OpenResult σ) := (c.results[i]?).join

/-- A result as it sees its connection. -/
def attach (c : Connection σ) (r : SqliteResult σ) : SqliteResult σ :=
  { r with handle := { r.handle with db := c.db, totalChanges := c.totalChanges } }

def save (c : Connection σ) (i : Nat) (o : OpenResult σ) : Connection σ :=
  { c with
    db := o.result.handle.db
    totalChanges := o.result.handle.totalChanges
    results := c.results.set i (some o) }

/-- `sqlite3_finalize` ends an execution as a reset does. -/
def finalize (c : Connection σ) (r : SqliteResult σ) : Connection σ :=
  { c with db := r.handle.sqlite3Reset.db, totalChanges := r.handle.sqlite3Reset.totalChanges }

end Connection

/-- A call on the external pointer of a result. -/
def onResult {α : Type} (i : Nat) (x : ResultM σ α)
    (counted : OpenResult σ → SqliteResult σ → SqliteResult σ → Nat) : ConnectionM σ α := fun c =>
  match c.opened i with
  | none => .error (.stop "Invalid result set") c
  | some o =>
    match x (c.attach o.result) with
    | .ok a r => .ok a (c.save i { result := r, counted := counted o (c.attach o.result) r })
    | .error e r => .error e (c.save i { result := r, counted := counted o (c.attach o.result) r })

def moreCounted (o : OpenResult σ) (r r' : SqliteResult σ) : Nat :=
  o.counted + (r'.handle.totalChanges - r.handle.totalChanges)

/-- The parameters that a binding of a result is given, if it gets past the checks. -/
def accepted (asText : Param → Param) (params : RList Param) (r : SqliteResult σ) :
    Option (List Param) :=
  match dbBind asText r.getPlaceholderNames false params with
  | .error _ => none
  | .ok (params, _) =>
    match validateParams params with
    | .error _ => none
    | .ok _ => if r.nparams = 0 ∨ params.length ≠ r.nparams then none else some params

/-- SQLite's count when the first row of parameters has been bound, or could not be. -/
def countWhenBound (env : Environment) (params : List Param) (r : SqliteResult σ) : Nat :=
  match SqliteResult.bindRow env { r with
      params := params, groups := (params.head?.map Param.length).getD 0, group := 0 } with
  | .ok _ r => r.handle.totalChanges
  | .error _ r => r.handle.totalChanges

def countedSinceBind (env : Environment) (asText : Param → Param) (params : RList Param)
    (o : OpenResult σ) (r r' : SqliteResult σ) : Nat :=
  match accepted asText params r with
  | none => moreCounted o r r'
  | some params => r'.handle.totalChanges - countWhenBound env params r

def dbIsValid (c : Connection σ) (i : Nat) : Bool := (c.opened i).isSome

def resultRelease (i : Nat) : ConnectionM σ Unit :=
  modify fun c =>
    match c.opened i with
    | none => c
    | some o => { c.finalize (c.attach o.result) with results := c.results.set i none }

/-- The warning for a result that has been cleared is left out. -/
def dbClearResult (i : Nat) : ConnectionM σ Unit := do
  if dbIsValid (← get) i then
    resultRelease i
    modify fun c => { c with ref := none }

def resultCreate (env : Environment) (prepare : σ → Except String (Stmt σ)) :
    ConnectionM σ Nat := fun c =>
  if c.valid then
    match prepare c.db with
    | .error message => .error (.stop message) c
    | .ok stmt =>
      match SqliteResult.create env (SqliteResult.initial stmt c.db c.totalChanges c.withAltTypes) with
      | .error e r => .error e (c.finalize r)
      | .ok _ r =>
        .ok c.results.length { c with
          db := r.handle.db
          totalChanges := r.handle.totalChanges
          results := c.results ++
            [some { result := r, counted := r.handle.totalChanges - c.totalChanges }] }
  else .error (.stop "Invalid or closed connection") c

variable (asText : Param → Param)

def bindResult (env : Environment) (i : Nat) (params : RList Param) : ConnectionM σ Unit := do
  let _ ← onResult i (dbBindResult env asText false params) (countedSinceBind env asText params)

def notNull : String := "is.null(conn@ref$result) is not TRUE"

/-- A result that is open is closed first, with a warning that is left out. -/
def closePending : ConnectionM σ Unit := do
  if let some pending := (← get).ref then
    dbClearResult pending
    if (← get).ref ≠ none then throw (.stop notNull)

def dbSendQuery (env : Environment) (prepare : σ → Except String (Stmt σ))
    (params : Option (RList Param)) : ConnectionM σ Nat := function do
  (closePending : ConnectionM σ Unit)
  let rs ← resultCreate env prepare
  onExit (some (dbClearResult rs))
  if let some params := params then (bindResult asText env rs params : ConnectionM σ Unit)
  onExit none
  modify fun f => { f with state := { f.state with ref := some rs } }
  return rs

def dbFetch (env : Environment) (i : Nat) (n : Int) : ConnectionM σ Fetched :=
  onResult i (SqliteResult.fetch env n) moreCounted

def dbGetRowsAffected (c : Connection σ) (i : Nat) : Option Int :=
  (c.opened i).bind fun o => (c.attach o.result).nRowsAffected

def released (c : Connection σ) : Connection σ :=
  match c.busyCallback with
  | none => c
  | some s => { c with preserved := c.preserved.erase s, busyCallback := none }

def releaseCallbackData : ConnectionM σ Unit := modify released

/-- `R_PreserveObject`, and the new value of `busy_callback_`. -/
def preserving (kind : CallbackKind) (c : Connection σ) : Connection σ :=
  let s := { id := c.nextId, kind := kind }
  { c with preserved := s :: c.preserved, busyCallback := some s, nextId := c.nextId + 1 }

def sqlite3BusyTimeout (ms : Int) : BusySlot := if 0 < ms then .timeout ms else .none

def busySlot : Option Callback → BusySlot
  | some ⟨_, .integer ms⟩ => sqlite3BusyTimeout ms
  | data => .callback data

def setBusyHandler (callback : Option CallbackKind) : ConnectionM σ Unit := do
  if !(← get).valid then throw (.stop "Invalid or closed connection")
  releaseCallbackData
  if let some kind := callback then modify (preserving kind)
  modify fun c => { c with slot := busySlot c.busyCallback }

/-- The argument of `sqliteSetBusyHandler`. A number is what `as.integer` makes of it. -/
inductive BusyHandler where
  | null
  | numeric (ms : Int)
  | function
  | other
deriving DecidableEq, Repr

def sqliteSetBusyHandler : BusyHandler → ConnectionM σ Unit
  | .null => setBusyHandler none
  | .numeric ms => setBusyHandler (some (.integer ms))
  | .function => setBusyHandler (some .function)
  | .other => throw (.stop "handler")

/-- `connection_release`, whose warnings are left out. -/
def dbDisconnect : ConnectionM σ Unit := do
  if (← get).valid then
    modify fun c => { c with valid := false }
    releaseCallbackData

inductive Call (σ : Type) where
  | sendQuery (env : Environment) (prepare : σ → Except String (Stmt σ))
      (params : Option (RList Param))
  | bind (env : Environment) (i : Nat) (params : RList Param)
  | fetch (env : Environment) (i : Nat) (n : Int)
  | clearResult (i : Nat)
  | disconnect
  | setBusyHandler (handler : BusyHandler)

def left {α : Type} : EStateM.Result Fault (Connection σ) α → Connection σ
  | .ok _ c => c
  | .error _ c => c

def next (c : Connection σ) : Call σ → Connection σ
  | .sendQuery env prepare params => left (dbSendQuery asText env prepare params c)
  | .bind env i params => left (bindResult asText env i params c)
  | .fetch env i n => left (dbFetch env i n c)
  | .clearResult i => left (dbClearResult i c)
  | .disconnect => left (dbDisconnect c)
  | .setBusyHandler handler => left (sqliteSetBusyHandler handler c)

def dbConnect (db : σ) (totalChanges : Nat) (withAltTypes : Bool) : Connection σ where
  valid := true
  db := db
  totalChanges := totalChanges
  withAltTypes := withAltTypes
  slot := .none
  busyCallback := none
  preserved := []
  nextId := 0
  results := []
  ref := none

theorem opened_set (c : Connection σ) (i j : Nat) (o : Option (OpenResult σ)) :
    Connection.opened { c with results := c.results.set i o } j =
      if j = i ∧ i < c.results.length then o else c.opened j := by
  simp only [Connection.opened, List.getElem?_set]
  by_cases hj : i = j
  · subst hj
    by_cases hi : i < c.results.length
    · simp [hi]
    · simp [hi]
  · simp [hj, Ne.symm hj]

section OnResult

variable {α : Type} {c : Connection σ} {i : Nat} {x : ResultM σ α}
  {counted : OpenResult σ → SqliteResult σ → SqliteResult σ → Nat}

theorem onResult_none (h : c.opened i = none) :
    onResult i x counted c = .error (.stop "Invalid result set") c := by
  rw [onResult, h]

theorem onResult_ok {o : OpenResult σ} {a : α} {r : SqliteResult σ} (h : c.opened i = some o)
    (hx : x (c.attach o.result) = .ok a r) : onResult i x counted c =
      .ok a (c.save i { result := r, counted := counted o (c.attach o.result) r }) := by
  simp only [onResult, h, hx]

theorem onResult_error {o : OpenResult σ} {e : Fault} {r : SqliteResult σ}
    (h : c.opened i = some o) (hx : x (c.attach o.result) = .error e r) : onResult i x counted c =
      .error e (c.save i { result := r, counted := counted o (c.attach o.result) r }) := by
  simp only [onResult, h, hx]

/-- The rule of a call on a result: it is refused, or runs on the result and is saved. -/
theorem ends_onResult {post : α → Connection σ → Prop} {raised : Fault → Connection σ → Prop}
    (hinvalid : c.opened i = none → raised (.stop "Invalid result set") c)
    (hopen : ∀ o, c.opened i = some o → Ends
      (fun a r => post a (c.save i { result := r, counted := counted o (c.attach o.result) r }))
      (fun e r => raised e (c.save i { result := r, counted := counted o (c.attach o.result) r }))
      (x (c.attach o.result))) :
    Ends post raised (onResult i x counted c) := by
  cases h : c.opened i with
  | none =>
    rw [onResult_none h]
    exact hinvalid h
  | some o =>
    have hends := hopen o h
    cases hx : x (c.attach o.result) with
    | ok a r =>
      rw [hx] at hends
      rw [onResult_ok h hx]
      exact hends
    | error e r =>
      rw [hx] at hends
      rw [onResult_error h hx]
      exact hends

end OnResult

end RSQLCipher.Connections
