import RSQLCipher.Values
import RSQLCipher.Library.Outcome

namespace RSQLCipher.ImportFile

open RSQLCipher.Library RSQLCipher.Values

def intMax : Nat := 2 ^ 31 - 1

/-- What ends a call of the importer: `Rf_error`, or an operation whose result C leaves
undefined. -/
inductive ImportFault where
  | raised (message : String)
  | undefined
  | stuck
deriving DecidableEq, Repr

def ImportFault.Raised : ImportFault → Prop
  | .raised _ => True
  | _ => False

instance (e : ImportFault) : Decidable (e.Raised) :=
  match e with
  | .raised _ => inferInstanceAs (Decidable True)
  | .undefined => inferInstanceAs (Decidable False)
  | .stuck => inferInstanceAs (Decidable False)

/-- A C string of the caller, without its terminator. -/
structure CString where
  bytes : Bytes
  noNul : 0 ∉ bytes

def comma : CString := ⟨[44], by decide⟩

def newline : CString := ⟨[10], by decide⟩

abbrev TextRow := List (Option Bytes)

/-- SQLite and the file system, as the importer uses them. Preparing a statement gives
its number of columns, failures give `sqlite3_errmsg`. -/
structure ImportTarget (σ : Type) where
  prepare : σ → String → Except String Nat
  insert : String → σ → TextRow → Except String σ
  openFile : String → Option Bytes
  signedChar : Bool

structure ImportState (σ : Type) where
  db : σ
  input : Bytes
  inserted : List TextRow

abbrev ImportM (σ : Type) := EStateM ImportFault (ImportState σ)

variable {σ : Type}

/-- The C string in memory whose cells have been written, which `strlen` reads. -/
def cString (cells : Bytes) : Bytes := cells.takeWhile (· ≠ 0)

def readString (cells : Bytes) : Except ImportFault Bytes :=
  if 0 ∈ cells then .ok (cString cells) else .error .undefined

def fgetc : ImportM σ (Option UInt8) := do
  match (← get).input with
  | [] => return none
  | c :: rest =>
    modify fun s => { s with input := rest }
    return some c

/-- `c == ceol`, between the `int` of `fgetc` and a `char`. -/
def sameByte (signedChar : Bool) (c ceol : UInt8) : Bool :=
  c == ceol && !(signedChar && decide (128 ≤ ceol))

/-- The loop over `j`: whether the bytes before the one just read are those of `eol`.
The index is a `size_t`, which wraps around when the buffer is too short. -/
def checkEol (buf eol : Bytes) : Nat → Except ImportFault Bool
  | 0 => .ok true
  | j + 1 =>
    if j + 1 < buf.length then
      if buf[buf.length - 1 - (j + 1)]? = eol[eol.length - 1 - (j + 1)]? then checkEol buf eol j
      else .ok false
    else .error .undefined

/-- The buffer of `RS_sqlite_getline`: the cells written, the cells allocated. -/
structure LineBuffer where
  buf : Bytes
  nc : Nat
  foundEol : Bool

def getlineRound (signedChar : Bool) (eol : Bytes) (ceol : UInt8) (b : LineBuffer) :
    ImportM σ (LineBuffer × Bool) := do
  let c ← fgetc
  let nc := if b.buf.length = b.nc then 2 * b.nc else b.nc
  match c with
  | none => return ({ b with nc := nc }, false)
  | some c =>
    if nc ≤ b.buf.length then throw .undefined
    let buf := b.buf ++ [c]
    if sameByte signedChar c ceol then
      let foundEol ← liftExcept (checkEol buf eol (eol.length - 1))
      return ({ buf := buf, nc := nc, foundEol := foundEol }, !foundEol)
    else return ({ buf := buf, nc := nc, foundEol := false }, true)

def finishLine (cells : Bytes) : Except ImportFault (Option Bytes) := do
  if cells = [] then return none
  let line ← readString cells
  return if line = [] then none else some line

/-- `RS_sqlite_getline`; `none` is `NULL`. -/
def getline (signedChar : Bool) (eol : Bytes) : ImportM σ (Option Bytes) := do
  match eol.getLast? with
  | none => throw .undefined
  | some ceol =>
    let b ← loop .stuck (getlineRound signedChar eol ceol) ((← get).input.length + 1)
      { buf := [], nc := 1024, foundEol := false }
    liftExcept (finishLine
      (if b.foundEol then b.buf.set (b.buf.length - eol.length) 0 else b.buf))

/-- A line that is being broken up: its bytes, with the terminators written so far, the
offsets in `azCol`, and the number of separators met. -/
structure Split where
  line : Bytes
  azCol : List Nat
  i : Nat
deriving DecidableEq, Repr

/-- The loop over `z`, at an offset, on the bytes from there; the jump over the rest of
a separator is the number of bytes still to pass. -/
def splitLoop (separator : Bytes) (nCol : Nat) : Bytes → Nat → Nat → Split → Split
  | [], _, _, s => s
  | _ :: rest, jump + 1, z, s => splitLoop separator nCol rest jump (z + 1) s
  | c :: rest, 0, z, s =>
    if c = 10 ∨ c = 13 then s
    else if separator.isPrefixOf (c :: rest) then
      if s.i + 1 < nCol then
        splitLoop separator nCol rest (separator.length - 1) (z + 1)
          { line := s.line.set z 0, azCol := s.azCol ++ [z + separator.length], i := s.i + 1 }
      else
        splitLoop separator nCol rest 0 (z + 1) { s with line := s.line.set z 0, i := s.i + 1 }
    else splitLoop separator nCol rest 0 (z + 1) s

def splitLine (separator : Bytes) (nCol : Nat) (line : Bytes) : Split :=
  splitLoop separator nCol line 0 0 { line := line, azCol := [0], i := 0 }

/-- The value bound for a column that begins at an offset: `NULL` for a text that begins
with a backslash and an `N`. -/
def columnValue (line : Bytes) (offset : Nat) : Option Bytes :=
  if [92, 78].isPrefixOf (cString (line.drop offset)) then none
  else some (cString (line.drop offset))

def rowValues (s : Split) : TextRow := s.azCol.map (columnValue s.line)

def formatQ (text : String) : String :=
  String.ofList (text.toList.flatMap fun c => if c = '\'' then [c, c] else [c])

def selectSql (zTable : String) : String := "SELECT * FROM '" ++ formatQ zTable ++ "'"

def insertSql (zTable : String) (nCol : Nat) : String :=
  "INSERT INTO '" ++ formatQ zTable ++ "' VALUES(?" ++
    String.join (List.replicate (nCol - 1) ",?") ++ ")"

def importError (text : String) : ImportFault := .raised ("RS_sqlite_import: " ++ text)

def splitRow (zFile : String) (separator : Bytes) (nCol lineno : Nat) (line : Bytes) :
    Except ImportFault TextRow :=
  let s := splitLine separator nCol line
  if intMax ≤ s.i then .error .undefined
  else if s.i + 1 ≠ nCol then
    .error (importError (zFile ++ " line " ++ toString lineno ++ " expected " ++ toString nCol ++
      " columns of data but found " ++ toString (s.i + 1)))
  else .ok (rowValues s)

variable (target : ImportTarget σ) (zTable zFile : String) (separator eol : CString)

def insertLine (nCol lineno : Nat) (line : Bytes) (db : σ) : Except ImportFault (TextRow × σ) := do
  let row ← splitRow zFile separator.bytes nCol lineno line
  match target.insert (insertSql zTable nCol) db row with
  | .ok db => return (row, db)
  | .error message => throw (importError message)

def importRound (nCol : Nat) (skip : Int) (lineno : Nat) : ImportM σ (Nat × Bool) := do
  match ← getline target.signedChar eol.bytes with
  | none => return (lineno, false)
  | some line =>
    if lineno = intMax then throw .undefined
    if (lineno + 1 : Int) ≤ skip then return (lineno + 1, true)
    let (row, db) ← liftExcept
      (insertLine target zTable zFile separator nCol (lineno + 1) line (← get).db)
    modify fun s => { s with db := db, inserted := s.inserted ++ [row] }
    return (lineno + 1, true)

def sqliteImport (skip : Int) : ImportM σ Int := do
  if separator.bytes = [] then throw (importError "non-null separator required for import")
  match target.prepare (← get).db (selectSql zTable) with
  | .error message => throw (importError message)
  | .ok nCol =>
    if nCol = 0 then return 0
    match target.prepare (← get).db (insertSql zTable nCol) with
    | .error message => throw (importError message)
    | .ok _ =>
      match target.openFile zFile with
      | none => throw (importError ("cannot open file " ++ zFile))
      | some content =>
        modify fun s => { s with input := content }
        let _ ← loop .stuck (importRound target zTable zFile separator eol nCol skip)
          (content.length + 1) 0
        return 1

def runImport (skip : Int) (db : σ) : EStateM.Result ImportFault (ImportState σ) Int :=
  sqliteImport target zTable zFile separator eol skip { db := db, input := [], inserted := [] }

end RSQLCipher.ImportFile
