import RSQLCipher.AppendTable
import RSQLCipher.FieldTypes
import RSQLCipher.ImportFile

namespace RSQLCipher.WriteTable

open RSQLCipher.Library RSQLCipher.Values RSQLCipher.Transactions RSQLCipher.AppendTable
open RSQLCipher.ExistsTable RSQLCipher.FieldTypes RSQLCipher.ImportFile

variable {ρ : Type}

/-- A value of R, as the checks of the arguments see it; numbers are what `as.logical`
makes of them. -/
inductive RArg where
  | null
  | numeric (xs : List (Option Bool))
  | logical (xs : List (Option Bool))
  | character (xs : List String)
  | other
deriving DecidableEq, Repr

inductive FieldTypes where
  | null
  | named (types : List (String × String))
  | other
deriving DecidableEq, Repr

structure WriteArgs where
  rowNames : RArg
  overwrite : RArg
  append : RArg
  fieldTypes : FieldTypes
  temporary : RArg
deriving DecidableEq, Repr

structure Checked where
  overwrite : Bool
  append : Bool
  types : List (String × String)
  temporary : Option Bool
deriving DecidableEq, Repr

def compatRowNames : RArg → RArg
  | .null => .logical [some false]
  | .numeric xs => .logical xs
  | x => x

def logicalScalar (x : RArg) (message : String) : Except String Bool :=
  match x with
  | .logical [some b] => .ok b
  | _ => .error message

def checkRowNames : RArg → Except String Unit
  | .logical [_] | .character [_] => .ok ()
  | _ => .error "`row.names` must be a logical scalar or a string"

/-- The value may be `NA`. -/
def checkTemporary : RArg → Except String (Option Bool)
  | .logical [b] => .ok b
  | _ => .error "`temporary` must be a logical scalar"

def checkFieldTypes : FieldTypes → Except String (List (String × String))
  | .null => .ok []
  | .named types =>
    if (types.map Prod.fst).Nodup then .ok types
    else .error "`field.types` must be a named character vector with unique names, or NULL"
  | .other => .error "`field.types` must be a named character vector with unique names, or NULL"

def checkWriteArgs (args : WriteArgs) : Except String Checked := do
  checkRowNames (compatRowNames args.rowNames)
  let overwrite ← logicalScalar args.overwrite "`overwrite` must be a logical scalar"
  let append ← logicalScalar args.append "`append` must be a logical scalar"
  let temporary ← checkTemporary args.temporary
  if overwrite && append then throw "overwrite and append cannot both be TRUE"
  let types ← checkFieldTypes args.fieldTypes
  if append && args.fieldTypes ≠ .null then
    throw "Cannot specify `field.types` with `append = TRUE`"
  return { overwrite := overwrite, append := append, types := types, temporary := temporary }

/-- What is not of the package: the methods of DBI, the statement that `sqlCreateTable` writes,
the conversions of the data and the types of its columns, the columns that `read.table` finds,
the importer's files, and what R makes of strings. -/
structure Outside (ρ : Type) where
  engine : Engine Char
  towlower : Char → Char
  accepts : RFrame ρ → Bool
  callNextMethod : Faults ρ → String → RFrame ρ → R ρ Nat
  dbCreateTable : Faults ρ → String → List (String × String) → Option Bool → R ρ Unit
  dbListFields : Faults ρ → String → R ρ (List String)
  sqlCreateTable : String → List (String × String) → Option Bool → Option (Change ρ)
  sqlData : RFrame ρ → RArg → Option (RFrame ρ)
  dbDataType : RFrame ρ → String → Option String
  readTable : String → Option (List (String × String))
  textRow : TextRow → ρ
  openFile : String → Option Bytes
  signedChar : Bool
  errmsg : String
  prepareFails : List (Statement ρ) → String → Bool

/-- The statement is for a temporary table or for a permanent one, and `NA` is an error. -/
def createStatement (name : String) (fields : List (String × String)) (temporary : Option Bool) :
    Option (Change ρ) :=
  temporary.map (.createTable name fields)

/-- What is documented of the methods of DBI: each executes its statements, and returns the
number of rows, nothing, or the names of the columns. -/
structure Documented (outside : Outside ρ) : Prop where
  appends : ∀ faults, Appends faults outside.accepts (outside.callNextMethod faults)
  creates : ∀ faults name fields temporary s,
    Executes faults (outside.dbCreateTable faults name fields temporary)
      (((createStatement name fields temporary).bind (Change.run s.store.content)).map
        fun content => ((), content))
      ((createStatement name fields temporary).toList.map .change) s
  lists : ∀ faults name s, Executes faults (outside.dbListFields faults name)
    (if s.store.content.has name then
      some (((s.store.content.fields name).getD []).map Prod.fst, s.store.content) else none)
    [.change (.listFields name)] s
  writes : ∀ name fields temporary,
    outside.sqlCreateTable name fields temporary = createStatement name fields temporary

def liftOption {σ α : Type} (x : Option α) : EStateM Raised σ α :=
  match x with
  | none => throw .called
  | some a => return a

def liftCheck {σ α : Type} (x : Except String α) : EStateM Raised σ α :=
  match x with
  | .error message => throw (.stop message)
  | .ok a => return a

variable (faults : Faults ρ) (outside : Outside ρ)

/-- The statement that creates the table writes a missing type as `NA`. -/
def fieldDef (data : RFrame ρ) (types : List (String × String)) :
    R ρ (List (String × String)) := do
  let fields ← liftExcept
    (FieldTypes.fieldDef outside.towlower (outside.dbDataType data) data.names types)
  return fields.map fun f => (f.1, f.2.getD "NA")

def catalog (d : Database ρ) : Catalog where
  main := d.main.map fun t => { type := .table, name := t.name }
  temp := d.temp.map fun t => { type := .table, name := t.name }
  attached := []

/-- The errors come before the query. -/
def dbExistsTable (name : String) : R ρ Bool := do
  let found ← liftCheck (dbExistsTableCharacter outside.engine outside.towlower
    (catalog (← get).store.content) [some name])
  dbExecute faults (.change (.existsTable name))
  return found

def dbRemoveTable (name : String) : R ρ Unit := dbExecute faults (.change (.dropTable name))

def tableExists (name : String) : String :=
  "Table " ++ name ++ " exists in database, and both overwrite and append are FALSE"

/-- The table is created, or the columns are matched with those it has. -/
def prepareTable (name : String) (value : RFrame ρ) (found : Bool) (args : Checked) :
    R ρ (RFrame ρ) :=
  if !found || args.overwrite then do
    let fields ← fieldDef outside value args.types
    outside.dbCreateTable faults name fields args.temporary
    return value
  else if args.append then do
    let colNames ← outside.dbListFields faults name
    let names ← liftCheck (matchCol outside.towlower value.names colNames)
    return { value with names := names }
  else return value

/-- The steps for a data frame between the begin and the commit. -/
def writeFrame (draw : Draw) (name : String) (value : RFrame ρ) (rowNames : RArg)
    (args : Checked) : R ρ Unit := do
  let found ← dbExistsTable faults outside name
  if found && !args.overwrite && !args.append then throw (.stop (tableExists name))
  if found && args.overwrite then dbRemoveTable faults name
  let value ← liftOption (outside.sqlData value rowNames)
  let value ← prepareTable faults outside name value found args
  if value.rows ≠ [] then
    let _ ← dbAppendTable faults (outside.callNextMethod faults) draw name value

/-- The random letters of the two savepoints are drawn one after the other. -/
def dbWriteTable (draw draw' : Draw) (name : String) (value : RFrame ρ) (args : WriteArgs) :
    R ρ Bool := function do
  let checked ← liftCheck (checkWriteArgs args)
  let savepointId := getSavepointId "dbWriteTable" draw
  dbBegin faults none (some savepointId)
  onExit (some (dbRollback faults none (some savepointId)))
  writeFrame faults outside draw' name value (compatRowNames args.rowNames) checked
  dbCommit faults none (some savepointId)
  onExit none
  return true

structure FileArgs where
  fieldTypes : Option (List (String × String))
  overwrite : Option Bool
  append : Option Bool
  header : Bool
  sep : CString
  eol : CString
  skip : Int
  temporary : Option Bool

def rNot (x : Option Bool) : Option Bool := x.map (!·)

def rAnd : Option Bool → Option Bool → Option Bool
  | some false, _ => some false
  | _, some false => some false
  | some true, some true => some true
  | _, _ => none

def rOr (x y : Option Bool) : Option Bool := rNot (rAnd (rNot x) (rNot y))

def importTarget (name : String) : ImportTarget (Session ρ) where
  prepare s sql :=
    if outside.prepareFails s.history sql then .error outside.errmsg
    else
      match s.store.content.fields name with
      | none => .error outside.errmsg
      | some fields => .ok fields.length
  insert _ s row :=
    match dbExecute faults (.change (.insert name (outside.textRow row))) s with
    | .ok _ s => .ok s
    | .error _ _ => .error outside.errmsg
  openFile := outside.openFile
  signedChar := outside.signedChar

def connectionImportFile (name value : String) (sep eol : CString) (skip : Int) : R ρ Unit :=
  fun s =>
    match runImport (importTarget faults outside name) name value sep eol skip s with
    | .ok _ st => .ok () st.db
    | .error (.raised message) st => .error (.stop message) st.db
    | .error _ st => .error .undefined st.db

def createFromFile (name value : String) (args : FileArgs) : R ρ Unit := do
  let fields ← liftOption (args.fieldTypes <|> outside.readTable value)
  let sql ← liftOption (outside.sqlCreateTable name fields args.temporary)
  dbExecute faults (.change sql)

/-- The steps for a file between the begin and the commit. -/
def writeFile (name value : String) (args : FileArgs) : R ρ Unit := do
  let found ← dbExistsTable faults outside name
  if ← liftOption (rAnd (rAnd (some found) (rNot args.overwrite)) (rNot args.append)) then
    throw (.stop (tableExists name))
  if ← liftOption (rAnd (some found) args.overwrite) then dbRemoveTable faults name
  if ← liftOption (rOr (some !found) args.overwrite) then
    createFromFile faults outside name value args
  connectionImportFile faults outside name value args.sep args.eol
    (args.skip + if args.header then 1 else 0)

def dbWriteTableFile (draw : Draw) (name value : String) (args : FileArgs) : R ρ Bool :=
  function do
    if ← liftOption (rAnd args.overwrite args.append) then
      throw (Raised.stop "overwrite and append cannot both be TRUE")
    let savepointId := getSavepointId "dbWriteTable" draw
    dbBegin faults none (some savepointId)
    onExit (some (dbRollback faults none (some savepointId)))
    writeFile faults outside name value args
    dbCommit faults none (some savepointId)
    onExit none
    return true

section Importing

variable {σ : Type} {inv : σ → Prop} {target : ImportTarget σ} {zTable zFile : String}
  {separator eol : CString}

theorem keeps_liftExcept {ε α : Type} (x : Except ε α) :
    Keeps inv (liftExcept x : EStateM ε σ α) := by
  cases x with
  | ok a => exact keeps_pure a
  | error e => exact keeps_throw e

theorem keeps_fgetc : Keeps (fun st : ImportState σ => inv st.db) fgetc := by
  refine keeps_bind keeps_get fun st => ?_
  cases st.input with
  | nil => exact keeps_pure none
  | cons c rest =>
    refine keeps_bind (keeps_modify fun s hs => hs) fun _ => ?_
    exact keeps_pure (some c)

theorem keeps_getlineRound (signedChar : Bool) (eol : Bytes) (ceol : UInt8) (b : LineBuffer) :
    Keeps (fun st : ImportState σ => inv st.db) (getlineRound signedChar eol ceol b) := by
  refine keeps_bind keeps_fgetc fun c => ?_
  cases c with
  | none => exact keeps_pure _
  | some c =>
    refine keeps_check (keeps_ite (keeps_bind (keeps_liftExcept _) fun _ => ?_) (keeps_pure _))
    exact keeps_pure _

theorem keeps_getline (signedChar : Bool) (eol : Bytes) :
    Keeps (fun st : ImportState σ => inv st.db) (getline signedChar eol) := by
  unfold getline
  cases eol.getLast? with
  | none => exact keeps_throw _
  | some ceol =>
    refine keeps_bind keeps_get fun st => ?_
    refine keeps_bind (keeps_loop (keeps_getlineRound signedChar eol ceol) _ _) fun b => ?_
    exact keeps_liftExcept _

variable (hinsert : ∀ sql db row db', inv db → target.insert sql db row = .ok db' → inv db')
include hinsert

theorem insertLine_keeps {nCol lineno : Nat} {line : Bytes} {db db' : σ} {row : TextRow}
    (hdb : inv db) (h : insertLine target zTable zFile separator nCol lineno line db =
      .ok (row, db')) : inv db' := by
  unfold insertLine at h
  cases hsplit : splitRow zFile separator.bytes nCol lineno line with
  | error e =>
    rw [hsplit] at h
    cases h
  | ok row' =>
    rw [hsplit] at h
    simp only [bind, Except.bind] at h
    cases hins : target.insert (insertSql zTable nCol) db row' with
    | error message =>
      rw [hins] at h
      cases h
    | ok db'' =>
      rw [hins] at h
      cases h
      exact hinsert _ db row db' hdb hins

theorem keeps_importRound (nCol : Nat) (skip : Int) (lineno : Nat) :
    Keeps (fun st : ImportState σ => inv st.db)
      (importRound target zTable zFile separator eol nCol skip lineno) := by
  refine keeps_bind (keeps_getline target.signedChar eol.bytes) fun line => ?_
  cases line with
  | none => exact keeps_pure _
  | some line =>
    refine keeps_check (keeps_ite (keeps_pure _) ?_)
    intro st hst
    simp only [bind_apply, get_apply]
    cases hline : insertLine target zTable zFile separator nCol (lineno + 1) line st.db with
    | error e => exact hst
    | ok p => exact insertLine_keeps hinsert hst hline

theorem keeps_sqliteImport (skip : Int) :
    Keeps (fun st : ImportState σ => inv st.db)
      (sqliteImport target zTable zFile separator eol skip) := by
  refine keeps_check (keeps_bind keeps_get fun st => ?_)
  cases target.prepare st.db (selectSql zTable) with
  | error message => exact keeps_throw _
  | ok nCol =>
    refine keeps_ite (keeps_pure _) (keeps_bind keeps_get fun st => ?_)
    cases target.prepare st.db (insertSql zTable nCol) with
    | error message => exact keeps_throw _
    | ok n =>
      cases target.openFile zFile with
      | none => exact keeps_throw _
      | some content =>
        refine keeps_bind (keeps_modify fun s hs => hs) fun _ => ?_
        refine keeps_bind (keeps_loop (keeps_importRound hinsert nCol skip) _ _) fun _ => ?_
        exact keeps_pure _

end Importing

section Steps

variable {faults outside} {id name value : String} {base : Store String (Database ρ)}

/-- A session whose store is inside of a savepoint. -/
def Within (id : String) (base : Store String (Database ρ)) (s : Session ρ) : Prop :=
  Inside id base s.store

theorem keeps_liftOption {σ α : Type} {inv : σ → Prop} (x : Option α) :
    Keeps inv (liftOption x) := by
  cases x with
  | none => exact keeps_throw _
  | some a => exact keeps_pure a

theorem keeps_liftCheck {σ α : Type} {inv : σ → Prop} (x : Except String α) :
    Keeps inv (liftCheck x) := by
  cases x with
  | error message => exact keeps_throw _
  | ok a => exact keeps_pure a

theorem keeps_dbExistsTable (name : String) :
    Keeps (Within id base) (dbExistsTable faults outside name) := by
  refine keeps_bind keeps_get fun s => keeps_bind (keeps_liftCheck _) fun found => ?_
  exact keeps_bind (keeps_change id base _) fun _ => keeps_pure _

/-- A method of DBI changes the content only. -/
theorem keeps_executes {α : Type} {method : R ρ α} {outcome : Session ρ → Option (α × Database ρ)}
    {stmts : List (Statement ρ)} (h : ∀ s, Executes faults method (outcome s) stmts s) :
    Keeps (Within id base) method := by
  intro s hs
  obtain ⟨a, content, -, -, hrun⟩ | ⟨-, e, content, later, hrun⟩ := executes_cases (h s)
  · rw [hrun]
    exact Inside.content hs content
  · rw [hrun]
    exact Inside.content hs content

theorem keeps_fieldDef (data : RFrame ρ) (types : List (String × String)) :
    Keeps (Within id base) (fieldDef outside data types) := by
  exact keeps_bind (keeps_liftExcept _) fun fields => keeps_pure _

theorem savepointId_ne (draw draw' : Draw) : (getSavepointId "dbAppendTable" draw).toLower ≠
    (getSavepointId "dbWriteTable" draw').toLower := by
  intro h
  have hthird := congrArg (fun id : String => id.toList[2]?) h
  have hlower : ∀ s : String, s.toLower.toList = s.toList.map Char.toLower := fun _ =>
    String.toList_map
  simp [getSavepointId, hlower] at hthird

/-- An append inside of the savepoint of a write leaves it open, whatever it leaves behind. -/
theorem keeps_dbAppendTable {accepts : RFrame ρ → Bool}
    {callNextMethod : String → RFrame ρ → R ρ Nat}
    (happends : Appends faults accepts callNextMethod) (draw draw' : Draw) (name : String)
    (value : RFrame ρ) :
    Keeps (Within (getSavepointId "dbWriteTable" draw').toLower base)
      (dbAppendTable faults callNextMethod draw name value) := by
  intro s hs
  obtain ⟨-, hatomic⟩ | ⟨-, history, herror⟩ := dbAppendTable_cases happends draw name value s
  · refine ends_mono hatomic ?_ ?_
    · rintro n s' ⟨-, hstore⟩
      rw [Within, hstore]
      exact Inside.content hs _
    · intro e s' hstore
      rw [Within, hstore]
      exact hs
  · rw [herror]
    exact (Inside.savepoint hs (savepointId_ne draw draw')).content _

variable (hdoc : Documented outside)
include hdoc

theorem keeps_prepareTable (name : String) (value : RFrame ρ) (found : Bool) (args : Checked) :
    Keeps (Within id base) (prepareTable faults outside name value found args) := by
  refine keeps_ite ?_ (keeps_ite ?_ (keeps_pure _))
  · refine keeps_bind (keeps_fieldDef _ _) fun fields => ?_
    refine keeps_bind (keeps_executes (hdoc.creates faults name fields args.temporary)) fun _ => ?_
    exact keeps_pure _
  · refine keeps_bind (keeps_executes (hdoc.lists faults name)) fun colNames => ?_
    exact keeps_bind (keeps_liftCheck _) fun names => keeps_pure _

theorem keeps_writeFrame (draw draw' : Draw) (name : String) (value : RFrame ρ)
    (rowNames : RArg) (args : Checked) :
    Keeps (Within (getSavepointId "dbWriteTable" draw').toLower base)
      (writeFrame faults outside draw name value rowNames args) := by
  refine keeps_bind (keeps_dbExistsTable name) fun found => ?_
  refine keeps_check (keeps_when (keeps_change _ base _) fun _ => ?_)
  refine keeps_bind (keeps_liftOption _) fun data => ?_
  refine keeps_bind (keeps_prepareTable hdoc name data found args) fun value => ?_
  refine keeps_ite ?_ (keeps_pure _)
  exact keeps_bind (keeps_dbAppendTable (hdoc.appends faults) _ _ _ _) fun _ => keeps_pure _

omit hdoc

theorem importTarget_keeps {inv : Session ρ → Prop}
    (hinsert : ∀ row, Keeps inv (dbExecute faults (.change (.insert name row)))) (sql : String)
    (db : Session ρ) (row : TextRow) (db' : Session ρ) (hdb : inv db)
    (h : (importTarget faults outside name).insert sql db row = .ok db') : inv db' := by
  have hkeeps := hinsert (outside.textRow row) db hdb
  simp only [importTarget] at h
  cases hrun : dbExecute faults (.change (.insert name (outside.textRow row))) db with
  | error e s =>
    rw [hrun] at h
    cases h
  | ok u s =>
    rw [hrun] at h hkeeps
    cases h
    exact hkeeps

/-- The import keeps what its insertions keep. -/
theorem connectionImportFile_keeps {inv : Session ρ → Prop}
    (hinsert : ∀ row, Keeps inv (dbExecute faults (.change (.insert name row)))) (value : String)
    (sep eol : CString) (skip : Int) :
    Keeps inv (connectionImportFile faults outside name value sep eol skip) := by
  intro s hs
  have himport : Keeps (fun st : ImportState (Session ρ) => inv st.db)
      (sqliteImport (importTarget faults outside name) name value sep eol skip) :=
    keeps_sqliteImport (importTarget_keeps hinsert) skip
  have hkeeps := himport { db := s, input := [], inserted := [] } hs
  unfold connectionImportFile
  rw [runImport]
  cases hrun : sqliteImport (importTarget faults outside name) name value sep eol skip
      { db := s, input := [], inserted := [] } with
  | ok n st =>
    rw [hrun] at hkeeps
    exact hkeeps
  | error e st =>
    rw [hrun] at hkeeps
    cases e with
    | raised message | undefined | stuck => exact hkeeps

theorem keeps_connectionImportFile (name value : String) (sep eol : CString) (skip : Int) :
    Keeps (Within id base) (connectionImportFile faults outside name value sep eol skip) :=
  connectionImportFile_keeps (fun _ => keeps_change id base _) value sep eol skip

theorem keeps_writeFile (name value : String) (args : FileArgs) :
    Keeps (Within id base) (writeFile faults outside name value args) := by
  refine keeps_bind (keeps_dbExistsTable name) fun found => ?_
  refine keeps_bind (keeps_liftOption _) fun b => ?_
  refine keeps_check (keeps_bind (keeps_liftOption _) fun b => ?_)
  refine keeps_when (keeps_change _ base _) fun _ => ?_
  refine keeps_bind (keeps_liftOption _) fun b => ?_
  refine keeps_when (keeps_bind (keeps_liftOption _) fun fields => ?_) fun _ => ?_
  · exact keeps_bind (keeps_liftOption _) fun sql => keeps_change id base sql
  · exact keeps_connectionImportFile _ _ _ _ _

end Steps

/-- A call that raises an error leaves the content and the savepoints as they were, and one
that returns leaves the savepoints. -/
def WriteAtomic (s : Session ρ) : EStateM.Result Raised (Session ρ) Bool → Prop :=
  Ends (fun _ s' => s'.store.savepoints = s.store.savepoints ∧ s'.store.begun = s.store.begun)
    (fun e s' => e ≠ .undefined → s'.store = s.store)

section Guarded

/-- What a handler that rolls back leaves, if what is left is inside of the savepoint. -/
theorem ends_leave {s s' : Session ρ} {id : String} {post : Session ρ → Prop}
    {raised : Raised → Session ρ → Prop} (hs' : Within id.toLower s.store s')
    (hpost : ∀ t : Session ρ, t.store = s.store → post t) :
    Ends (fun _ t => post t) raised
      (Frame.leave { state := s', exit := some (dbRollback faults none (some id)) }) := by
  rw [Frame.leave]
  simp only [dbRollback_inside hs']
  exact hpost _ rfl

variable {faults} {id : String} {s : Session ρ}

/-- Steps that stay inside of the savepoint of a function, and the commit before its handler
is removed. -/
theorem guarded_atomic {steps : R ρ Unit} (id : String)
    (hsteps : ∀ base, Keeps (Within id.toLower base) steps) (s : Session ρ) :
    WriteAtomic s (function (do
      dbBegin faults none (some id)
      onExit (some (dbRollback faults none (some id)))
      steps
      dbCommit faults none (some id)
      onExit none
      return true) s) := by
  apply ends_function
  cases hbegin : faults.fails s.history (.savepoint id) with
  | true =>
    simp only [bind_apply, lift_apply, dbBegin_fails hbegin]
    exact fun _ => rfl
  | false =>
    have hwithin : Within id.toLower s.store (begun s id) := inside_savepoint _ _
    have hkeeps := hsteps s.store (begun s id) hwithin
    simp only [bind_apply, lift_apply, dbBegin_ok hbegin, onExit_apply, pure_apply]
    cases hrun : steps (begun s id) with
    | error e s' =>
      rw [hrun] at hkeeps
      exact ends_leave faults hkeeps fun t ht _ => ht
    | ok u s' =>
      rw [hrun] at hkeeps
      simp only [dbCommit_named]
      obtain ⟨store, -, hexec, hcommit⟩ | ⟨-, hcommit⟩ := dbExecute_cases faults (.release id) s'
      · rw [hcommit]
        rw [exec, Inside.release hkeeps] at hexec
        cases hexec
        exact ⟨rfl, rfl⟩
      · rw [hcommit]
        exact ends_leave faults hkeeps fun t ht _ => ht

end Guarded

/-- Writing a table is atomic, of a data frame and of a file. -/
theorem write_atomic (faults : Faults ρ) (outside : Outside ρ) (hdoc : Documented outside)
    (s : Session ρ) :
    (∀ draw draw' name value args,
      WriteAtomic s (dbWriteTable faults outside draw draw' name value args s)) ∧
    ∀ draw name value args, WriteAtomic s (dbWriteTableFile faults outside draw name value args s) := by
  constructor
  · intro draw draw' name value args
    unfold dbWriteTable
    cases hchecked : checkWriteArgs args with
    | error message => exact fun _ => rfl
    | ok checked =>
      exact guarded_atomic _ (fun base => keeps_writeFrame hdoc draw' draw name value _ checked) s
  · intro draw name value args
    unfold dbWriteTableFile
    cases hboth : rAnd args.overwrite args.append with
    | none => exact fun _ => rfl
    | some both =>
      cases both with
      | true => exact fun _ => rfl
      | false =>
        exact guarded_atomic _ (fun base => keeps_writeFile name value args) s

/-- A world in which no step outside of SQLite raises. -/
def willing : Outside Nat where
  engine := .trying
  towlower := Char.toLower
  accepts _ := true
  callNextMethod faults := insertEach faults fun _ => true
  dbCreateTable faults name fields temporary := do
    let sql ← liftOption (createStatement name fields temporary)
    dbExecute faults (.change sql)
  dbListFields faults name := do
    dbExecute faults (.change (.listFields name))
    return (((← get).store.content.fields name).getD []).map Prod.fst
  sqlCreateTable := createStatement
  sqlData value _ := some value
  dbDataType _ _ := some "INTEGER"
  readTable _ := some [("x", "INTEGER")]
  textRow _ := 0
  openFile _ := some []
  signedChar := true
  errmsg := "error"
  prepareFails _ _ := false

theorem documented_willing : Documented willing where
  appends faults := appends_insertEach faults _
  creates faults name fields temporary s := by
    cases temporary with
    | none =>
      exact ⟨by rintro _ _ ⟨⟩, fun _ => ⟨.called, s.store.content, [], rfl⟩⟩
    | some temporary => exact executes_change faults (.createTable name fields temporary) s
  lists faults name s := by
    have hlist := executes_change faults (.listFields name) s
    cases hhas : s.store.content.has name with
    | false =>
      simp only [Change.run, hhas] at hlist
      exact executes_refused hlist
    | true =>
      simp only [Change.run, hhas] at hlist
      have hnames := executes_pure faults (changed s s.store.content [.change (.listFields name)])
        (((s.store.content.fields name).getD []).map Prod.fst)
      exact executes_bind hlist ⟨hnames.returns, hnames.raises⟩
  writes _ _ _ := rfl

def withPermanent : Session Nat where
  store := { content := { temp := [], main := [⟨"fleet", [("x", "INTEGER")], [7]⟩] }
             begun := none, savepoints := [] }
  history := []

def overwriting : WriteArgs where
  rowNames := .null
  overwrite := .logical [some true]
  append := .logical [some false]
  fieldTypes := .null
  temporary := .logical [some true]

def importing : FileArgs where
  fieldTypes := none
  overwrite := some false
  append := some true
  header := false
  sep := comma
  eol := newline
  skip := 0
  temporary := some false

theorem write_atomic_deferred :
    WriteAtomic withPermanent (dbWriteTable deferred willing ⟨1, "a"⟩ ⟨1, "b"⟩ "fleet"
      ⟨["x"], [8]⟩ overwriting withPermanent) ∧
    WriteAtomic withPermanent (dbWriteTableFile deferred willing ⟨1, "a"⟩ "fleet" "fleet.csv"
      importing withPermanent) :=
  ⟨(write_atomic deferred willing documented_willing withPermanent).1 _ _ _ _ _,
    (write_atomic deferred willing documented_willing withPermanent).2 _ _ _ _⟩

end RSQLCipher.WriteTable
