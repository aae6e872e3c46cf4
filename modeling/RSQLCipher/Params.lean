import RSQLCipher.Values

namespace RSQLCipher.Params

open RSQLCipher.Library RSQLCipher.Values

inductive ListElt where
  | nilsxp
  | raw (bytes : Bytes)
  | other

/-- A vector of parameter values, by the cases that `bind_parameter_pos` tells apart. -/
inductive Param where
  | lgl (v : List Int32)
  | int64 (v : List Int64)
  | int (v : List Int32)
  | real (v : List Binary64)
  | str (v : List (Option Bytes))
  | list (v : List ListElt)
  | other (type : String) (length : Nat)

namespace Param

def length : Param → Nat
  | lgl v | int v => v.length
  | int64 v => v.length
  | real v => v.length
  | str v => v.length
  | list v => v.length
  | other _ length => length

def elt {α : Type} (v : List α) (group : Nat) : Except Fault α :=
  match v[group]? with
  | some a => .ok a
  | none => .error .outOfBounds

/-- `NA_LOGICAL` and `NA_INTEGER` are one pattern. -/
def intCell (value : Int32) : Cell :=
  if value = naInteger then .null else .integer value.toInt64

def int64Cell (value : Int64) : Cell := if value = naInteger64 then .null else .integer value

/-- The comparison with `NA_REAL` is never true; it is SQLite that stores NaNs as NULL. -/
def realCell (value : Binary64) : Cell := if value.isNaN then .null else .float value

/-- `sqlite3_bind_text` is given no length and stops at the first NUL. -/
def strCell : Option Bytes → Cell
  | none => .null
  | some s => .text (s.takeWhile (· ≠ 0))

def cell (value : Param) (group : Nat) : Except Fault Cell :=
  match value with
  | lgl v | int v => (elt v group).map intCell
  | int64 v => (elt v group).map int64Cell
  | real v => (elt v group).map realCell
  | str v => (elt v group).map strCell
  | list v => do
    match ← elt v group with
    | .nilsxp => return .null
    | .raw bytes => return .blob bytes
    | .other => throw (.stop "Can only bind lists of raw vectors (or NULL)")
  | other type _ =>
    .error (.stop ("Don't know how to handle parameter of type " ++ type ++ "."))

end Param

def validateParams : List Param → Except Fault Unit
  | [] => .ok ()
  | first :: rest =>
    match rest.findIdx? (fun p => p.length ≠ first.length) with
    | none => .ok ()
    | some j => .error (.stop ("Parameter " ++ toString (j + 2) ++ " does not have length " ++
        toString first.length ++ "."))

def groupBindings (params : List Param) (group : Nat) : Option (List Cell) :=
  params.mapM fun p => (p.cell group).toOption

/-- The bindings of a number of groups from a first one on, up to the first group that
cannot be bound. -/
def boundGroups (params : List Param) (group : Nat) : Nat → List (List Cell)
  | 0 => []
  | n + 1 =>
    match groupBindings params group with
    | none => []
    | some b => b :: boundGroups params (group + 1) n

end RSQLCipher.Params
