import RSQLCipher.DeclaredType

namespace RSQLCipher.ColumnDataSource

open RSQLCipher.Library RSQLCipher.Values RSQLCipher.DeclaredType

/-- SQLite's `sqlite3_column_*` accessors on a cell. What they return for a cell
of another storage class is SQLite's business; the fields say what they return
for a cell of their own class, and for an integer read as a double. -/
structure ColumnAccess where
  columnInt64 : Cell → Int64
  columnDouble : Cell → Binary64
  columnText : Cell → Bytes
  columnBlob : Cell → Bytes
  columnInt64_integer : ∀ v, columnInt64 (.integer v) = v
  columnDouble_integer : ∀ v, columnDouble (.integer v) = Binary64.ofInt v.toInt
  columnDouble_float : ∀ x, columnDouble (.float x) = x
  columnText_text : ∀ s, columnText (.text s) = s
  columnBlob_blob : ∀ b, columnBlob (.blob b) = b

attribute [simp] ColumnAccess.columnInt64_integer ColumnAccess.columnDouble_integer
  ColumnAccess.columnDouble_float ColumnAccess.columnText_text ColumnAccess.columnBlob_blob

/-- The low 32 bits of the 64-bit value, as `sqlite3_column_int` returns them. -/
def ColumnAccess.columnInt (a : ColumnAccess) (c : Cell) : Int32 := (a.columnInt64 c).toInt32

/-- The date and time parsers of Boost: days since 1970-01-01, and seconds; `none`
stands for the exception they throw. -/
structure DateParsers where
  fromSimpleString : Bytes → Option Int
  parseDelimitedTime : Bytes → Option Binary64
  durationFromString : Bytes → Option Binary64

structure SqliteColumnDataSource where
  access : ColumnAccess
  parsers : DateParsers
  decltype : Option Bytes
  withAltTypes : Bool

def iequals (a : Bytes) (b : String) : Bool :=
  a.map sqlite3UpperToLower == b.toList.map (fun c => c.val.toUInt8)

def datatypeFromDecltype (declType : Option Bytes) (withAltTypes : Bool) : DataType :=
  match declType with
  | none => .bool
  | some t =>
    if withAltTypes && (iequals t "datetime" || iequals t "timestamp") then .datetime
    else if withAltTypes && iequals t "date" then .date
    else if withAltTypes && iequals t "time" then .time
    else match sqlite3AffinityType t with
      | .integer => .int
      | .numeric | .real => .real
      | .text => .string
      | .blob => .blob

def needs64Bit (v : Int64) : Bool := decide (v.toInt < -2 ^ 31) || decide (v.toInt > 2 ^ 31 - 1)

namespace SqliteColumnDataSource

def getDeclDataType (src : SqliteColumnDataSource) : DataType :=
  datatypeFromDecltype src.decltype src.withAltTypes

def storageType : Cell → DataType
  | .integer v => if needs64Bit v then .int64 else .int
  | .float _ => .real
  | .text _ => .string
  | .blob _ => .blob
  | .null => .unknown

def getDataType (src : SqliteColumnDataSource) (c : Cell) : DataType :=
  let declDt := src.getDeclDataType
  if src.withAltTypes && (declDt == .date || declDt == .datetime || declDt == .time) then declDt
  else storageType c

def isNull (c : Cell) : Bool := c == .null

def fetchInt (src : SqliteColumnDataSource) (c : Cell) : Int32 := src.access.columnInt c

def fetchInt64 (src : SqliteColumnDataSource) (c : Cell) : Int64 := src.access.columnInt64 c

def fetchReal (src : SqliteColumnDataSource) (c : Cell) : Binary64 := src.access.columnDouble c

/-- `Rf_mkCharCE` reads up to the first NUL. -/
def fetchString (src : SqliteColumnDataSource) (c : Cell) : Bytes :=
  (src.access.columnText c).takeWhile (· ≠ 0)

def fetchBlob (src : SqliteColumnDataSource) (c : Cell) : Bytes := src.access.columnBlob c

/-- The shape of the three date and time accessors: text is parsed, a blob is `NA`,
and anything else is read as a number. -/
def fetchParsed (src : SqliteColumnDataSource) (parse : Bytes → Option Binary64)
    (number : Cell → Binary64) : Cell → Binary64
  | .text s => (parse ((src.access.columnText (.text s)).takeWhile (· ≠ 0))).getD naReal
  | .blob _ => naReal
  | c => number c

def fetchDate (src : SqliteColumnDataSource) : Cell → Binary64 :=
  src.fetchParsed (fun s => (src.parsers.fromSimpleString s).map Binary64.ofInt)
    (fun c => Binary64.ofInt (src.access.columnInt c).toInt)

def fetchDatetimeLocal (src : SqliteColumnDataSource) : Cell → Binary64 :=
  src.fetchParsed src.parsers.parseDelimitedTime src.access.columnDouble

def fetchDatetime : Binary64 := Binary64.ofInt 0

def fetchTime (src : SqliteColumnDataSource) : Cell → Binary64 :=
  src.fetchParsed src.parsers.durationFromString src.access.columnDouble

theorem storageType_ne_unknown (c : Cell) (h : c ≠ .null) : storageType c ≠ .unknown := by
  cases c with
  | null => exact absurd rfl h
  | integer v => simp only [storageType]; split <;> simp
  | float x | text s | blob b => simp [storageType]

theorem getDataType_ne_unknown (src : SqliteColumnDataSource) (c : Cell) (h : c ≠ .null) :
    src.getDataType c ≠ .unknown := by
  simp only [getDataType]
  split
  · rename_i hd
    simp only [Bool.and_eq_true, Bool.or_eq_true, beq_iff_eq] at hd
    obtain ⟨-, (hd | hd) | hd⟩ := hd <;> simp [hd]
  · exact storageType_ne_unknown c h

@[simp] theorem getDataType_off (src : SqliteColumnDataSource) (h : src.withAltTypes = false)
    (c : Cell) : src.getDataType c = storageType c := by
  simp [getDataType, h]

end SqliteColumnDataSource

end RSQLCipher.ColumnDataSource
