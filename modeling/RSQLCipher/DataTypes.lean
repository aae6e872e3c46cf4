import RSQLCipher.FetchedValues
import RSQLCipher.Params

namespace RSQLCipher.DataTypes

open RSQLCipher.Library RSQLCipher.Values RSQLCipher.DeclaredType RSQLCipher.Params
open RSQLCipher.ColumnDataSource RSQLCipher.ChunkContents RSQLCipher.FetchedValues
open SqliteColumnDataSource

inductive RType where
  | integer | double | character | logical | list | raw | other
deriving DecidableEq

/-- An R object as `dbDataType` sees it. -/
structure RObject where
  typeof : RType
  classes : List String

def RObject.inherits (obj : RObject) (what : String) : Bool := obj.classes.contains what

/-- The parameter is the method of DBI, which is called for data frames. -/
def dbDataType (nextMethod : RObject → Except Fault (List String)) (extendedTypes : Bool)
    (obj : RObject) : Except Fault (List String) :=
  if obj.inherits "factor" then .ok ["TEXT"]
  else if obj.inherits "data.frame" then nextMethod obj
  else if obj.inherits "integer64" then .ok ["INTEGER"]
  else if extendedTypes && obj.inherits "Date" then .ok ["DATE"]
  else if extendedTypes && obj.inherits "POSIXct" then .ok ["TIMESTAMP"]
  else if extendedTypes && obj.inherits "hms" then .ok ["TIME"]
  else match obj.typeof with
    | .integer => .ok ["INTEGER"]
    | .double => .ok ["REAL"]
    | .character => .ok ["TEXT"]
    | .logical => .ok ["INTEGER"]
    | .list => .ok ["BLOB"]
    | .raw => .ok ["TEXT"]
    | .other => .error (.stop "Unsupported type")

def dbDataTypes (nextMethod : RObject → Except Fault (List String)) (extendedTypes : Bool)
    (data : List RObject) : Except Fault (List String) :=
  data.mapM fun x => do
    match ← dbDataType nextMethod extendedTypes x with
    | [type] => return type
    | _ => throw (.stop "values must be length 1")

/-- R's strings have no NULs. -/
abbrev CharSxp := {s : Bytes // 0 ∉ s}

/-- A column of a data frame; `none` is `NA_character_` or `NULL`. -/
inductive ColumnData where
  | logical (v : List Int32)
  | integer (v : List Int32)
  | double (v : List Binary64)
  | character (v : List (Option CharSxp))
  | list (v : List (Option Bytes))

inductive RValue where
  | missing
  | int (v : Int32)
  | double (x : Binary64)
  | string (s : CharSxp)
  | raw (bytes : Bytes)

/-- Equality of numbers: zero has two representations. -/
def SameNumber (x y : Binary64) : Prop := x = y ∨ x.toRat = some 0 ∧ y.toRat = some 0

/-- The element of a vector that was read is the value that was written. -/
inductive RValue.Equals : RValue → Elem → Prop
  | int (v : Int32) : Equals (.int v) (.int v)
  | double {x y : Binary64} (h : SameNumber x y) : Equals (.double x) (.ofDouble y)
  | string (s : CharSxp) : Equals (.string s) (.chr (some s.val))
  | raw (bytes : Bytes) : Equals (.raw bytes) (.obj (some bytes))

namespace ColumnData

def typeof : ColumnData → RType
  | logical _ => .logical
  | integer _ => .integer
  | double _ => .double
  | character _ => .character
  | list _ => .list

def values : ColumnData → List RValue
  | logical v | integer v => v.map fun x => if x = naInteger then .missing else .int x
  | double v => v.map fun x => if x.isNaN then .missing else .double x
  | character v => v.map (·.elim .missing .string)
  | list v => v.map (·.elim .missing .raw)

def param : ColumnData → Param
  | logical v => .lgl v
  | integer v => .int v
  | double v => .real v
  | character v => .str (v.map (·.map Subtype.val))
  | list v => .list (v.map (·.elim .nilsxp .raw))

/-- The type that `dbDataType` gives to the column, and the one with which it is read. -/
def declType : ColumnData → String
  | logical _ | integer _ => "INTEGER"
  | double _ => "REAL"
  | character _ => "TEXT"
  | list _ => "BLOB"

def dataType : ColumnData → DataType
  | logical _ | integer _ => .int
  | double _ => .real
  | character _ => .string
  | list _ => .blob

def sexpType : ColumnData → SexpType
  | logical _ | integer _ => .intsxp
  | double _ => .realsxp
  | character _ => .strsxp
  | list _ => .vecsxp

def cls : ColumnData → RClass
  | list _ => .blob
  | _ => .plain

end ColumnData

/-- What SQLite's columns do with the cells that are bound to them: `store` is the affinity
of a column applied to a cell. Zero may lose its sign where whole numbers are packed. -/
structure Storage where
  store : Affinity → Cell → Cell
  store_null : ∀ a, store a .null = .null
  store_integer : ∀ v, store .integer (.integer v) = .integer v
  store_whole : ∀ v, store .real (.integer v) = .float (Binary64.ofInt v.toInt)
  store_float : ∀ x, x.isNaN = false → ∃ y, store .real (.float x) = .float y ∧ SameNumber x y
  store_text : ∀ s, store .text (.text s) = .text s
  store_blob : ∀ b, store .blob (.blob b) = .blob b

/-- The cells that are bound to the parameter of the column. -/
def ColumnData.cells : ColumnData → List Cell
  | .logical v | .integer v => v.map Param.intCell
  | .double v => v.map Param.realCell
  | .character v => v.map fun s => Param.strCell (s.map Subtype.val)
  | .list v => v.map (·.elim .null .blob)

def declared (type : String) : Bytes := type.toList.map fun c => c.val.toUInt8

namespace Storage

/-- The cell of a table whose column has a type, when a cell is bound to its parameter. -/
def column (storage : Storage) (type : String) (c : Cell) : Cell :=
  storage.store (sqlite3AffinityType (declared type)) c

end Storage

/-- The classes that `dbDataType` looks for. -/
def specialClasses (extendedTypes : Bool) : List String :=
  ["factor", "data.frame", "integer64"] ++ if extendedTypes then ["Date", "POSIXct", "hms"] else []

structure FrameColumn (extendedTypes : Bool) where
  name : String
  data : ColumnData
  classes : List String
  ordinary : ∀ what ∈ specialClasses extendedTypes, what ∉ classes

variable {extendedTypes : Bool}

def FrameColumn.object (c : FrameColumn extendedTypes) : RObject where
  typeof := c.data.typeof
  classes := c.classes

/-- Tables have at least one column. -/
structure RDataFrame (extendedTypes : Bool) where
  columns : List (FrameColumn extendedTypes)
  nrow : Nat
  nonempty : columns ≠ []
  lengths : ∀ c ∈ columns, c.data.values.length = nrow

namespace RDataFrame

def names (frame : RDataFrame extendedTypes) : List String := frame.columns.map (·.name)

def params (frame : RDataFrame extendedTypes) : List Param := frame.columns.map (·.data.param)

def declTypes (frame : RDataFrame extendedTypes) : List String :=
  frame.columns.map (·.data.declType)

end RDataFrame

section Types

variable (nextMethod : RObject → Except Fault (List String))

theorem dbDataType_ordinary (c : FrameColumn extendedTypes) :
    dbDataType nextMethod extendedTypes c.object = .ok [c.data.declType] := by
  have hnot : ∀ what ∈ specialClasses extendedTypes, c.object.inherits what = false := by
    intro what hwhat
    simpa [RObject.inherits, FrameColumn.object] using c.ordinary what hwhat
  have hextended : ∀ what ∈ ["Date", "POSIXct", "hms"],
      (extendedTypes && c.object.inherits what) = false := by
    intro what hwhat
    cases extendedTypes with
    | false => rfl
    | true => exact hnot what (List.mem_append_right _ hwhat)
  simp only [dbDataType, hnot "factor" (by simp [specialClasses]),
    hnot "data.frame" (by simp [specialClasses]), hnot "integer64" (by simp [specialClasses]),
    hextended "Date" (by simp), hextended "POSIXct" (by simp), hextended "hms" (by simp),
    Bool.false_eq_true, if_false]
  cases hdata : c.data <;> simp only [FrameColumn.object, hdata, ColumnData.typeof] <;> rfl

theorem dbDataTypes_ordinary (columns : List (FrameColumn extendedTypes)) :
    dbDataTypes nextMethod extendedTypes (columns.map FrameColumn.object) =
      .ok (columns.map (·.data.declType)) := by
  induction columns with
  | nil => rfl
  | cons c columns ih =>
    rw [dbDataTypes] at ih ⊢
    rw [List.map_cons, List.mapM_cons, ih, dbDataType_ordinary]
    rfl

end Types

section Source

variable {src : SqliteColumnDataSource}

/-- The type that is declared for a column is read back as the type of its values. -/
theorem getDeclDataType_declType (data : ColumnData)
    (hdecl : src.decltype = some (declared data.declType)) : src.getDeclDataType = data.dataType := by
  have hread : ∀ extendedTypes : Bool,
      datatypeFromDecltype (some (declared "INTEGER")) extendedTypes = .int ∧
      datatypeFromDecltype (some (declared "REAL")) extendedTypes = .real ∧
      datatypeFromDecltype (some (declared "TEXT")) extendedTypes = .string ∧
      datatypeFromDecltype (some (declared "BLOB")) extendedTypes = .blob := by decide
  obtain ⟨hint, hreal, hstring, hblob⟩ := hread src.withAltTypes
  rw [getDeclDataType, hdecl]
  cases data with
  | logical | integer => exact hint
  | double => exact hreal
  | character => exact hstring
  | list => exact hblob

theorem getDataType_declType (data : ColumnData)
    (hdecl : src.decltype = some (declared data.declType)) (c : Cell) :
    src.getDataType c = storageType c := by
  have hplain : ∀ dt ∈ [DataType.date, .datetime, .time], data.dataType ≠ dt := by
    intro dt hdt
    cases data <;> rintro rfl <;> simp [ColumnData.dataType] at hdt
  have hnone := fun dt h => beq_false_of_ne (hplain dt h)
  rw [getDataType, getDeclDataType_declType data hdecl]
  simp [hnone .date (by simp), hnone .datetime (by simp), hnone .time (by simp)]

end Source

section Cells

open Param

theorem elt_map {α β : Type} (f : α → β) (v : List α) (group : Nat) :
    elt (v.map f) group = (elt v group).map f := by
  rw [elt, elt, List.getElem?_map]
  cases v[group]? <;> rfl

/-- Binding an element of a column never fails for its type. -/
theorem cell_param (data : ColumnData) (group : Nat) :
    data.param.cell group = elt data.cells group := by
  cases data with
  | logical v | integer v | double v => simp only [ColumnData.param, cell, ColumnData.cells, elt_map]
  | character v =>
    simp only [ColumnData.param, cell, ColumnData.cells, elt_map]
    cases elt v group <;> rfl
  | list v =>
    simp only [ColumnData.param, cell, ColumnData.cells, elt_map]
    cases elt v group with
    | error e => rfl
    | ok b => cases b <;> rfl

theorem length_cells (data : ColumnData) : data.cells.length = data.values.length := by
  cases data <;> simp [ColumnData.cells, ColumnData.values]

theorem length_param (data : ColumnData) : data.param.length = data.values.length := by
  cases data <;> simp [ColumnData.param, Param.length, ColumnData.values]

end Cells

/-- A cell of a table is read, at a type, as a value. -/
structure Reads (src : SqliteColumnDataSource) (dt : DataType) (v : RValue) (c : Cell) : Prop where
  null : c = .null ↔ v = .missing
  type : c ≠ .null → storageType c = dt
  value : c ≠ .null → v.Equals (convert src dt c) ∧ ¬isNA dt (convert src dt c)

section Reads

variable (storage : Storage) (src : SqliteColumnDataSource)

theorem reads_missing (type : String) (dt : DataType) :
    Reads src dt .missing (storage.column type .null) := by
  have hnull : storage.column type .null = .null := storage.store_null _
  rw [hnull]
  exact ⟨iff_of_true rfl rfl, fun h => absurd rfl h, fun h => absurd rfl h⟩

theorem needs64Bit_toInt64 (x : Int32) : needs64Bit x.toInt64 = false := by
  rw [needs64Bit_iff, Int32.toInt_toInt64]
  have hlo := x.le_toInt
  have hhi := x.toInt_lt
  omega

theorem reads_int (x : Int32) : Reads src .int (if x = naInteger then .missing else .int x)
    (storage.column "INTEGER" (Param.intCell x)) := by
  by_cases hx : x = naInteger
  · rw [if_pos hx, Param.intCell, if_pos hx]
    exact reads_missing storage src _ _
  · have hcolumn : storage.column "INTEGER" (.integer x.toInt64) = .integer x.toInt64 :=
      storage.store_integer _
    have hconvert : convert src .int (.integer x.toInt64) = .int x := by
      rw [convert_int, Int32.toInt32_toInt64]
    rw [if_neg hx, Param.intCell, if_neg hx, hcolumn]
    refine ⟨iff_of_false (by simp) (by simp), fun _ => ?_, fun _ => ?_⟩
    · simp [storageType, needs64Bit_toInt64]
    · rw [hconvert]
      exact ⟨.int x, fun hna => hx (Elem.int.inj hna)⟩

theorem isNaN_sameNumber {x y : Binary64} (h : SameNumber x y) (hx : x.isNaN = false) :
    y.isNaN = false := by
  obtain rfl | ⟨-, hy⟩ := h
  · exact hx
  · have hexponent : y.exponent ≠ 2047 := by
      intro hexponent
      rw [Binary64.toRat, if_pos hexponent] at hy
      cases hy
    simp [Binary64.isNaN, hexponent]

theorem reads_double (x : Binary64) : Reads src .real (if x.isNaN then .missing else .double x)
    (storage.column "REAL" (Param.realCell x)) := by
  cases hx : x.isNaN with
  | true =>
    rw [if_pos rfl, Param.realCell, if_pos hx]
    exact reads_missing storage src _ _
  | false =>
    obtain ⟨y, hy, hsame⟩ := storage.store_float x hx
    have hcolumn : storage.column "REAL" (.float x) = .float y := hy
    rw [if_neg (by simp), Param.realCell, if_neg (by simp [hx]), hcolumn]
    refine ⟨iff_of_false (by simp) (by simp), fun _ => rfl, fun _ => ?_⟩
    rw [convert_float]
    refine ⟨.double hsame, ?_⟩
    have hnan := isNaN_sameNumber hsame hx
    simp [isNA, Elem.ofDouble, rIsNA, hnan]

theorem reads_string (s : Option CharSxp) : Reads src .string (s.elim .missing .string)
    (storage.column "TEXT" (Param.strCell (s.map Subtype.val))) := by
  cases s with
  | none => exact reads_missing storage src _ _
  | some s =>
    have hcolumn : storage.column "TEXT" (.text s.val) = .text s.val := storage.store_text _
    show Reads src .string (.string s) (storage.column "TEXT" (.text (s.val.takeWhile (· ≠ 0))))
    rw [takeWhile_noNul s.property, hcolumn]
    refine ⟨iff_of_false (by simp) (by simp), fun _ => rfl, fun _ => ?_⟩
    rw [convert_text src s.val s.property]
    exact ⟨.string s, by simp [isNA, naElem]⟩

theorem reads_raw (b : Option Bytes) : Reads src .blob (b.elim .missing .raw)
    (storage.column "BLOB" (b.elim .null .blob)) := by
  cases b with
  | none => exact reads_missing storage src _ _
  | some b =>
    have hcolumn : storage.column "BLOB" (.blob b) = .blob b := storage.store_blob _
    show Reads src .blob (.raw b) (storage.column "BLOB" (.blob b))
    rw [hcolumn]
    refine ⟨iff_of_false (by simp) (by simp), fun _ => rfl, fun _ => ?_⟩
    rw [convert_blob]
    exact ⟨.raw b, by simp [isNA, naElem]⟩

theorem getElem?_maps {α β γ : Type} {f : α → β} {g : α → γ} {l : List α} {i : ℕ} {b : β} {c : γ}
    (hb : (l.map f)[i]? = some b) (hc : (l.map g)[i]? = some c) : ∃ x, b = f x ∧ c = g x := by
  rw [List.getElem?_map, Option.map_eq_some_iff] at hb hc
  obtain ⟨x, hx, rfl⟩ := hb
  obtain ⟨y, hy, rfl⟩ := hc
  obtain rfl := Option.some.inj (hx.symm.trans hy)
  exact ⟨x, rfl, rfl⟩

/-- What is stored of an element of a column is read as the element. -/
theorem reads_column (data : ColumnData) (i : ℕ) {v : RValue} {c : Cell}
    (hv : data.values[i]? = some v) (hc : data.cells[i]? = some c) :
    Reads src data.dataType v (storage.column data.declType c) := by
  cases data with
  | logical l | integer l =>
    obtain ⟨x, rfl, rfl⟩ := getElem?_maps hv hc
    exact reads_int storage src x
  | double l =>
    obtain ⟨x, rfl, rfl⟩ := getElem?_maps hv hc
    exact reads_double storage src x
  | character l =>
    obtain ⟨s, rfl, rfl⟩ := getElem?_maps hv hc
    exact reads_string storage src s
  | list l =>
    obtain ⟨b, rfl, rfl⟩ := getElem?_maps hv hc
    exact reads_raw storage src b

end Reads

end RSQLCipher.DataTypes
