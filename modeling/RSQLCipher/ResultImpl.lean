import RSQLCipher.DataFrame
import RSQLCipher.Library.Outcome
import RSQLCipher.Params

namespace RSQLCipher.ResultImpl

open RSQLCipher.Library RSQLCipher.Values RSQLCipher.ColumnDataSource RSQLCipher.ColumnStorage
open RSQLCipher.Statement RSQLCipher.DataFrame RSQLCipher.Params

/-- SQLite's accessors, the date parsers, and the failures: which of the calls of
`sqlite3_step`, `bind_parameter_pos` and `check_user_interrupt`, counted together, fail,
and with what message. -/
structure Environment where
  access : ColumnAccess
  parsers : DateParsers
  fails : Nat → Option String

/-- A `SqliteResultImpl` with its statement and connection. `nrows` is how often the `int`
`nrows_` has been incremented since the last binding; `clock` counts the calls that can
fail. -/
structure SqliteResult (σ : Type) where
  handle : Handle σ
  complete : Bool
  ready : Bool
  nrows : Nat
  totalChangesStart : Nat
  params : List Param
  group : Nat
  groups : Nat
  types : List DataType
  withAltTypes : Bool
  clock : Nat

variable {σ : Type}

abbrev ResultM (σ : Type) : Type → Type := EStateM Fault (SqliteResult σ)

def chance (env : Environment) : ResultM σ (Option String) := fun r =>
  .ok (env.fails r.clock) { r with clock := r.clock + 1 }

namespace SqliteResult

def factory (env : Environment) (r : SqliteResult σ) (j : Nat) : SqliteColumnDataSource where
  access := env.access
  parsers := env.parsers
  decltype := (r.handle.stmt.columns[j]?).bind (·.2)
  withAltTypes := r.withAltTypes

def names (r : SqliteResult σ) : List String := r.handle.stmt.columns.map (·.1)

def nparams (r : SqliteResult σ) : Nat := r.handle.stmt.parameters.length

def bindParameterPos (env : Environment) (j : Nat) (value : Param) : ResultM σ Unit := do
  if let some message ← chance env then throw (.stop message)
  let r ← get
  let c ← liftExcept (value.cell r.group)
  set { r with handle := r.handle.sqlite3Bind j c }

/-- The loop over the parameters from position `j` on, counted from 0. -/
def bindParameters (env : Environment) : Nat → List Param → ResultM σ Unit
  | _, [] => pure ()
  | j, value :: params => do
    bindParameterPos env (j + 1) value
    bindParameters env (j + 1) params

def bindRow (env : Environment) : ResultM σ Bool := do
  let r ← get
  if r.group ≥ r.groups then return false
  set { r with handle := r.handle.sqlite3Reset.sqlite3ClearBindings }
  bindParameters env 0 r.params
  return true

def stepDone (env : Environment) : ResultM σ Bool := do
  modify fun r => { r with group := r.group + 1 }
  let moreParams ← bindRow env
  if !moreParams then modify fun r => { r with complete := true }
  return moreParams

def stepRun (env : Environment) : ResultM σ Bool := do
  let failure ← chance env
  let r ← get
  let (rc, handle) := r.handle.sqlite3Step failure.isSome
  set { r with handle }
  match rc with
  | .done => stepDone env
  | .row => return false
  | .error => throw (.stop (failure.getD ""))

def stepRound (env : Environment) (_ : Unit) : ResultM σ (Unit × Bool) :=
  return ((), ← stepRun env)

/-- Each round but the last goes on to another group, which bounds the rounds. -/
def step (env : Environment) : ResultM σ Unit := fun r =>
  loop .recursion (stepRound env) (r.groups - r.group + 1) () r

def init (paramsHaveRows : Bool) : ResultM σ Unit :=
  modify fun r => { r with ready := true, nrows := 0, complete := !paramsHaveRows }

def afterBind (env : Environment) (paramsHaveRows : Bool) : ResultM σ Unit := do
  init paramsHaveRows
  if paramsHaveRows then step env

/-- The fields as the constructor initializes them, the statement being prepared. -/
def initial (stmt : Stmt σ) (db : σ) (totalChanges : Nat) (withAltTypes : Bool) :
    SqliteResult σ where
  handle := Handle.prepared stmt db totalChanges
  complete := false
  ready := false
  nrows := 0
  totalChangesStart := totalChanges
  params := []
  group := 0
  groups := 0
  types := List.replicate stmt.columns.length .unknown
  withAltTypes := withAltTypes
  clock := 0

def create (env : Environment) : ResultM σ Unit := do
  let r ← get
  if r.nparams = 0 then afterBind env true

def bind (env : Environment) (params : List Param) : ResultM σ Unit := do
  let r ← get
  if r.nparams = 0 then throw (.stop "Query does not require parameters.")
  if params.length ≠ r.nparams then
    throw (.stop ("Query requires " ++ toString r.nparams ++ " params; " ++
      toString params.length ++ " supplied."))
  set { r with
    params := params
    groups := (params.head?.map Param.length).getD 0
    group := 0
    totalChangesStart := r.handle.totalChanges }
  let hasParams ← bindRow env
  afterBind env hasParams

def dbBind (env : Environment) (params : List Param) : ResultM σ Unit := do
  liftExcept (validateParams params)
  bind env params

def laterGroups (r : SqliteResult σ) : List (List Cell) :=
  boundGroups r.params (r.group + 1) (r.groups - (r.group + 1))

def queue (r : SqliteResult σ) : List (List Cell) :=
  match r.handle.cursor with
  | some _ => r.laterGroups
  | none => r.handle.bindings :: r.laterGroups

/-- The rows behind the current one, until all groups are done. -/
def upcoming (r : SqliteResult σ) : List Row :=
  (r.handle.cursor.elim [] (·.rest)) ++ rowsOf r.handle.stmt r.handle.db r.queue

/-- The rows that are left to fetch, with the one that is read next. -/
def pending (r : SqliteResult σ) : List Row :=
  if r.complete then [] else r.handle.currentRow :: r.upcoming

def fetchRound (env : Environment) (data : DbDataFrame) : ResultM σ (DbDataFrame × Bool) := do
  let r ← get
  if r.complete then return (data, false)
  let data ← liftExcept (data.setColValues r.handle.currentRow)
  step env
  modify fun r => { r with nrows := r.nrows + 1 }
  if data.checksInterrupt then
    if (← chance env).isSome then throw .interrupt
  return data.advance

/-- The number of pending rows bounds the rounds. -/
def fetchLoop (env : Environment) (data : DbDataFrame) : ResultM σ DbDataFrame := fun r =>
  loop .recursion (fetchRound env) (r.pending.length + 1) data r

def notSelect : String :=
  "`dbGetQuery()`, `dbSendQuery()` and `dbFetch()` should only be used with `SELECT` queries. " ++
  "Did you mean `dbExecute()`, `dbSendStatement()` or `dbGetRowsAffected()`?"

def fetchRows (env : Environment) (nMax : Int) : ResultM σ Fetched := do
  let r ← get
  let data := DbDataFrame.new (r.factory env) r.names nMax r.types
  let warnings := if r.complete && data.getNcols = 0 then [notSelect] else []
  let data ← fetchLoop env data
  let (out, types) ← liftExcept data.getData
  modify fun r => { r with types }
  return { out with warnings := warnings ++ out.warnings }

def peekFirstRow (env : Environment) : ResultM σ Fetched := do
  let r ← get
  let data := DbDataFrame.new (r.factory env) r.names 1 r.types
  let data ← if r.complete then pure data else
    liftExcept (data.setColValues r.handle.currentRow)
  let (out, types) ← liftExcept data.getData
  modify fun r => { r with types }
  return out

def fetch (env : Environment) (nMax : Int) : ResultM σ Fetched := do
  let r ← get
  if !r.ready then throw (.stop "Query needs to be bound before fetching")
  if nMax ≠ 0 then fetchRows env nMax else peekFirstRow env

def type2char : SexpType → String
  | .nilsxp => "NULL"
  | .lglsxp => "logical"
  | .intsxp => "integer"
  | .realsxp => "double"
  | .strsxp => "character"
  | .vecsxp => "list"

def columnType : DataType → String
  | .date => "Date"
  | .datetime => "POSIXct"
  | .time => "hms"
  | dt => type2char (sexptypeFromDatatype dt)

def getColumnInfo (env : Environment) : ResultM σ (List (String × String)) := do
  let _ ← peekFirstRow env
  let r ← get
  return r.names.zip (r.types.map columnType)

/-- The value of `nrows_`, an `int`: past `2 ^ 31 - 1` it has overflowed, to `-2 ^ 31` first,
which is R's `NA`. -/
def nRowsFetched (r : SqliteResult σ) : Int := Int.bmod r.nrows (2 ^ 32)

def nRowsAffected (r : SqliteResult σ) : Option Int :=
  if r.ready then some (r.handle.totalChanges - r.totalChangesStart) else none

def getPlaceholderNames (r : SqliteResult σ) : List String :=
  r.handle.stmt.parameters.map fun name => (name.map fun s => String.ofList (s.toList.drop 1)).getD ""

end SqliteResult

end RSQLCipher.ResultImpl
