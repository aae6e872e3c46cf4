import RSQLCipher.Library.Binary64

namespace RSQLCipher.Values

open RSQLCipher.Library

abbrev Bytes := List UInt8

inductive DataType where
  | unknown | bool | int | int64 | real | string | blob | date | datetime | datetimetz | time
deriving DecidableEq, Repr

/-- A value of a result row, by SQLite's storage classes. -/
inductive Cell where
  | null
  | integer (v : Int64)
  | float (x : Binary64)
  | text (s : Bytes)
  | blob (b : Bytes)
deriving DecidableEq, Repr

/-- R's vector types. `INT64SXP` is a synonym of `REALSXP`. -/
inductive SexpType where
  | nilsxp | lglsxp | intsxp | realsxp | strsxp | vecsxp
deriving DecidableEq, Repr

inductive RClass where
  | plain | integer64 | date | posixct | blob | hms
deriving DecidableEq, Repr

/-- An element of an R vector. `REALSXP` elements are words, since `INTEGER64`
and `REAL` read the same memory; `none` is `NA_STRING` or `R_NilValue`. -/
inductive Elem where
  | unset
  | int (v : Int32)
  | word (w : BitVec 64)
  | chr (s : Option Bytes)
  | obj (b : Option Bytes)
deriving DecidableEq, Repr

def Elem.ofInt64 (v : Int64) : Elem := .word v.toBitVec

def Elem.ofDouble (x : Binary64) : Elem := .word x.bits

structure Sexp where
  type : SexpType
  cls : RClass
  tzone : Option String
  elems : List Elem
deriving DecidableEq, Repr

/-- What ends a call of the C++ code: `cpp11::stop`, the user's interrupt, an access that
is not inside a vector, an accessor for another vector type, or runaway recursion. -/
inductive Fault where
  | stop (message : String)
  | interrupt
  | outOfBounds
  | wrongType
  | recursion
deriving DecidableEq, Repr

def Sexp.length (x : Sexp) : Nat := x.elems.length

def Sexp.get (x : Sexp) (i : Nat) : Except Fault Elem :=
  match x.elems[i]? with
  | some e => .ok e
  | none => .error .outOfBounds

def Sexp.set (x : Sexp) (i : Nat) (e : Elem) : Except Fault Sexp :=
  if i < x.elems.length then .ok { x with elems := x.elems.set i e } else .error .outOfBounds

/-- The element that `INTEGER` or `LOGICAL` reads; the three after it read words,
strings and list elements. -/
def Sexp.integer (x : Sexp) (i : Nat) : Except Fault Int32 := do
  match ← x.get i with
  | .int v => return v
  | _ => throw .wrongType

def Sexp.word (x : Sexp) (i : Nat) : Except Fault (BitVec 64) := do
  match ← x.get i with
  | .word w => return w
  | _ => throw .wrongType

def Sexp.stringElt (x : Sexp) (i : Nat) : Except Fault (Option Bytes) := do
  match ← x.get i with
  | .chr s => return s
  | _ => throw .wrongType

def Sexp.vectorElt (x : Sexp) (i : Nat) : Except Fault (Option Bytes) := do
  match ← x.get i with
  | .obj b => return b
  | _ => throw .wrongType

def naInteger : Int32 := Int32.minValue

def naInteger64 : Int64 := Int64.minValue

def naReal : Binary64 := ⟨0x7FF00000000007A2#64⟩

def rIsNA (x : Binary64) : Bool := x.isNaN && decide (x.bits.toNat % 2 ^ 32 = 1954)

def naElem : DataType → Elem
  | .unknown => .unset
  | .bool | .int => .int naInteger
  | .int64 => .ofInt64 naInteger64
  | .real | .date | .datetime | .datetimetz | .time => .ofDouble naReal
  | .string => .chr none
  | .blob => .obj none

@[simp] theorem rIsNA_ofInt (w : BitVec 64) : rIsNA (Binary64.ofInt w.toInt) = false := by
  have hlo := BitVec.le_toInt w
  have hhi := BitVec.toInt_lt (x := w)
  have h : w.toInt.natAbs ≤ 2 ^ 63 := by omega
  simp [rIsNA, Binary64.isNaN_ofInt _ h]

end RSQLCipher.Values
