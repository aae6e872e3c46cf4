import RSQLCipher.ColumnDataSource

namespace RSQLCipher.ColumnStorage

open RSQLCipher.Library RSQLCipher.Values RSQLCipher.ColumnDataSource SqliteColumnDataSource

def sexptypeFromDatatype : DataType → SexpType
  | .unknown => .nilsxp
  | .bool => .lglsxp
  | .int => .intsxp
  | .int64 | .real | .date | .datetime | .datetimetz | .time => .realsxp
  | .string => .strsxp
  | .blob => .vecsxp

/-- `class_from_datatype` with the classes that `set_attribs_from_datatype` adds. -/
def classFromDatatype : DataType → RClass
  | .int64 => .integer64
  | .date => .date
  | .datetime | .datetimetz => .posixct
  | .blob => .blob
  | .time => .hms
  | .unknown | .bool | .int | .real | .string => .plain

def tzoneFromDatatype : DataType → Option String
  | .datetime => some "UTC"
  | _ => none

def allocate (length : Nat) (dt : DataType) : Sexp where
  type := sexptypeFromDatatype dt
  cls := classFromDatatype dt
  tzone := tzoneFromDatatype dt
  elems := if dt = .unknown then [] else List.replicate length .unset

def fillDefaultValue (data : Sexp) (dt : DataType) (i : Nat) : Except Fault Sexp :=
  match dt with
  | .unknown => .error (.stop "Not setting value for unknown data type")
  | dt => data.set i (naElem dt)

structure DbColumnStorage where
  data : Sexp
  i : Nat
  dt : DataType
  nMax : Int
deriving DecidableEq, Repr

/-- The storage a call of the append functions returns: the one it was called on,
changed, or another one. -/
inductive Appended where
  | this (s : DbColumnStorage)
  | other (s : DbColumnStorage)
deriving DecidableEq, Repr

def Appended.storage : Appended → DbColumnStorage
  | .this s | .other s => s

namespace DbColumnStorage

def getNewCapacity (nMax desired : Int) : Nat :=
  if nMax < 0 then (max desired 100).toNat else (max desired 1).toNat

def new (dt : DataType) (capacity nMax : Int) : DbColumnStorage where
  data := allocate (getNewCapacity nMax capacity) dt
  i := 0
  dt := dt
  nMax := nMax

def getCapacity (s : DbColumnStorage) : Nat := s.data.length

def getDataType (s : DbColumnStorage) (src : SqliteColumnDataSource) : DataType :=
  if s.dt = .unknown then src.getDeclDataType else s.dt

def fetchElem (src : SqliteColumnDataSource) (c : Cell) : DataType → Except Fault Elem
  | .bool => .ok (.int 0)
  | .int => .ok (.int (src.fetchInt c))
  | .int64 => .ok (.ofInt64 (src.fetchInt64 c))
  | .real => .ok (.ofDouble (src.fetchReal c))
  | .string => .ok (.chr (some (src.fetchString c)))
  | .blob => .ok (.obj (some (src.fetchBlob c)))
  | .date => .ok (.ofDouble (src.fetchDate c))
  | .datetime => .ok (.ofDouble (src.fetchDatetimeLocal c))
  | .datetimetz => .ok (.ofDouble fetchDatetime)
  | .time => .ok (.ofDouble (src.fetchTime c))
  | .unknown => .error (.stop "NYI")

def fetchValue (s : DbColumnStorage) (src : SqliteColumnDataSource) (c : Cell) :
    Except Fault DbColumnStorage := do
  let e ← fetchElem src c s.dt
  let data ← s.data.set s.i e
  return { s with data }

def appendNull (s : DbColumnStorage) : Except Fault Appended := do
  let data ← if s.i < s.getCapacity then fillDefaultValue s.data s.dt s.i else pure s.data
  return .this { s with data, i := s.i + 1 }

def appendDataToNew (appendData : DbColumnStorage → Except Fault Appended)
    (src : SqliteColumnDataSource) (c : Cell) (s : DbColumnStorage) (newDt : DataType) :
    Except Fault Appended := do
  let newDt := if newDt = .unknown then src.getDataType c else newDt
  let desiredCapacity : Int := if s.nMax < 0 then s.getCapacity * 2 else s.nMax - s.i
  let r ← appendData (new newDt desiredCapacity s.nMax)
  return .other r.storage

/-- `append_data` and `append_data_to_new` call each other; the first argument
bounds the depth of these calls. -/
def appendData (src : SqliteColumnDataSource) (c : Cell) :
    Nat → DbColumnStorage → Except Fault Appended
  | 0, _ => .error .recursion
  | depth + 1, s =>
    let toNew := appendDataToNew (appendData src c depth) src c s
    if s.dt = .unknown then toNew s.dt
    else if s.getCapacity ≤ s.i then toNew s.dt
    else if s.dt = .int ∧ src.getDataType c = .int64 then toNew .int64
    else if s.dt = .int ∧ src.getDataType c = .real then toNew .real
    else do
      let s ← s.fetchValue src c
      return .this { s with i := s.i + 1 }

/-- The calls nest three deep at most: a full `INT` chunk that meets a wider value
opens a new chunk, which opens another one for that value. -/
def appendCol (s : DbColumnStorage) (src : SqliteColumnDataSource) (c : Cell) :
    Except Fault Appended :=
  if isNull c then s.appendNull else appendData src c 3 s

def copyValue (s : DbColumnStorage) (x : Sexp) (dt : DataType) (tgt i : Nat) : Except Fault Sexp :=
  if s.data.type = .nilsxp then fillDefaultValue x dt tgt
  else match dt with
    | .bool | .int => do
      let v ← s.data.integer i
      x.set tgt (.int v)
    | .int64 =>
      match s.data.type with
      | .intsxp => do
        let v ← s.data.integer i
        x.set tgt (.ofInt64 (if v = naInteger then naInteger64 else v.toInt64))
      | .realsxp => do
        let w ← s.data.word i
        x.set tgt (if rIsNA (Binary64.ofInt (Int64.ofBitVec w).toInt) then .ofInt64 naInteger64
          else .word w)
      | _ => .ok x
    | .real =>
      match s.data.type with
      | .intsxp => do
        let v ← s.data.integer i
        x.set tgt (.ofDouble (if v = naInteger then naReal else Binary64.ofInt v.toInt))
      | .realsxp => do
        let w ← s.data.word i
        x.set tgt (.word w)
      | _ => .ok x
    | .string => do
      let t ← s.data.stringElt i
      x.set tgt (.chr t)
    | .blob => do
      let b ← s.data.vectorElt i
      x.set tgt (.obj b)
    | .date | .datetime | .datetimetz | .time => do
      let w ← s.data.word i
      x.set tgt (.word w)
    | .unknown => .error (.stop "NYI: default")

def copyValues (s : DbColumnStorage) (dt : DataType) :
    Nat → Sexp → Nat → Nat → Except Fault (Sexp × Nat × Nat)
  | 0, x, tgt, i => .ok (x, tgt, i)
  | n + 1, x, tgt, i =>
    if i < s.getCapacity ∧ i < s.i ∧ tgt < x.length then do
      let x ← s.copyValue x dt tgt i
      s.copyValues dt n x (tgt + 1) (i + 1)
    else .ok (x, tgt, i)

def fillValues (s : DbColumnStorage) (dt : DataType) :
    Nat → Sexp → Nat → Nat → Except Fault (Sexp × Nat)
  | 0, x, _, i => .ok (x, i)
  | n + 1, x, tgt, i =>
    if i < s.i ∧ tgt < x.length then do
      let x ← fillDefaultValue x dt tgt
      s.fillValues dt n x (tgt + 1) (i + 1)
    else .ok (x, i)

def copyTo (s : DbColumnStorage) (x : Sexp) (dt : DataType) (pos : Nat) :
    Except Fault (Sexp × Nat) := do
  let (x, tgt, i) ← s.copyValues dt s.i x pos 0
  s.fillValues dt s.i x tgt i

end DbColumnStorage

end RSQLCipher.ColumnStorage
