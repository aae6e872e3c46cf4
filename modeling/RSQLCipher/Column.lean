import RSQLCipher.ColumnStorage

namespace RSQLCipher.Column

open RSQLCipher.Values RSQLCipher.ColumnDataSource RSQLCipher.ColumnStorage

/-- The chunks are never empty: the last one, which takes new cells, is kept apart. -/
structure DbColumn where
  source : SqliteColumnDataSource
  older : List DbColumnStorage
  last : DbColumnStorage
  n : Nat
  dataTypesSeen : List DataType

namespace DbColumn

def new (source : SqliteColumnDataSource) (dt : DataType) (nMax : Int) : DbColumn where
  source := source
  older := []
  last := DbColumnStorage.new (if dt = .bool then .unknown else dt) 0 nMax
  n := 0
  dataTypesSeen := []

def storage (col : DbColumn) : List DbColumnStorage := col.older ++ [col.last]

/-- The column after a type was seen and its last chunk returned a storage. -/
def receive (col : DbColumn) (seen : DataType) : Appended → DbColumn
  | .this s => { col with last := s, dataTypesSeen := col.dataTypesSeen.insert seen }
  | .other s =>
    { col with older := col.storage, last := s, dataTypesSeen := col.dataTypesSeen.insert seen }

def setColValue (col : DbColumn) (c : Cell) : Except Fault DbColumn := do
  let next ← col.last.appendCol col.source c
  return col.receive (col.source.getDataType c) next

def setColValues (col : DbColumn) (cells : List Cell) : Except Fault DbColumn :=
  cells.foldlM setColValue col

def finalize (col : DbColumn) (n : Nat) : DbColumn := { col with n }

def getType (col : DbColumn) : DataType := col.last.getDataType col.source

def copyChunks (dt : DataType) : List DbColumnStorage → Sexp → Nat → Except Fault Sexp
  | [], x, _ => .ok x
  | s :: chunks, x, pos => do
    let (x, copied) ← s.copyTo x dt pos
    copyChunks dt chunks x (pos + copied)

def toSexp (col : DbColumn) : Except Fault Sexp :=
  copyChunks col.getType col.storage (allocate col.n col.getType) 0

def formatDataType : DataType → String
  | .unknown => "unknown"
  | .bool => "boolean"
  | .int => "integer"
  | .int64 => "integer64"
  | .real => "real"
  | .string => "string"
  | .blob => "blob"
  | .date | .datetime | .datetimetz | .time => "<unknown type>"

/-- The types in the order of the enumeration, which is that of the `std::set`. -/
def dataTypes : List DataType :=
  [.unknown, .bool, .int, .int64, .real, .string, .blob, .date, .datetime, .datetimetz, .time]

def typeConflicts (col : DbColumn) : List DataType :=
  let dt := col.getType
  dataTypes.filter fun seen => decide (seen ∈ col.dataTypesSeen ∧
    ¬((dt = .real ∨ dt = .int64) ∧ seen = .int) ∧ seen ≠ .unknown ∧ seen ≠ .bool ∧ seen ≠ dt)

def warnTypeConflicts (col : DbColumn) (name : String) : Option String :=
  if col.typeConflicts = [] then none
  else some ("Column `" ++ name ++ "`: mixed type, first seen values of type " ++
    formatDataType col.getType ++ ", coercing other values of type " ++
    ", ".intercalate (col.typeConflicts.map formatDataType))

end DbColumn

end RSQLCipher.Column
