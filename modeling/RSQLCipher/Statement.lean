import RSQLCipher.Values

namespace RSQLCipher.Statement

open RSQLCipher.Values

abbrev Row := List Cell

/-- What one execution of a statement does: the rows it yields, the database it
leaves, and how many rows it changes. -/
structure Execution (σ : Type) where
  rows : List Row
  db : σ
  changes : Nat

/-- A prepared statement over databases of type `σ`: its columns with their declared
types, its parameters with their names, and its meaning, given the database and the
values that are bound. -/
structure Stmt (σ : Type) where
  columns : List (String × Option Bytes)
  parameters : List (Option String)
  run : σ → List Cell → Execution σ

/-- An execution that has yielded a row: that row, those to come, and the database from
before, which an error brings back. -/
structure Cursor (σ : Type) where
  before : σ
  changes : Nat
  row : Row
  rest : List Row

/-- A statement handle on its connection. `begun` records the bindings of all
executions so far; it is there for the specifications only. -/
structure Handle (σ : Type) where
  stmt : Stmt σ
  bindings : List Cell
  cursor : Option (Cursor σ)
  db : σ
  totalChanges : Nat
  begun : List (List Cell)

inductive StepCode where
  | row | done | error
deriving DecidableEq, Repr

variable {σ : Type}

namespace Handle

def prepared (stmt : Stmt σ) (db : σ) (totalChanges : Nat) : Handle σ where
  stmt := stmt
  bindings := List.replicate stmt.parameters.length .null
  cursor := none
  db := db
  totalChanges := totalChanges
  begun := []

/-- One `sqlite3_step`, which may fail. Without a current row it begins an execution
with the current bindings: statements reset themselves after their last row and after
an error. -/
def sqlite3Step (h : Handle σ) (fails : Bool) : StepCode × Handle σ :=
  match h.cursor with
  | none =>
    let h := { h with begun := h.begun ++ [h.bindings] }
    if fails then (.error, h)
    else
      let e := h.stmt.run h.db h.bindings
      match e.rows with
      | [] => (.done, { h with db := e.db, totalChanges := h.totalChanges + e.changes })
      | row :: rest => (.row, { h with db := e.db, cursor := some ⟨h.db, e.changes, row, rest⟩ })
  | some c =>
    if fails then (.error, { h with cursor := none, db := c.before })
    else match c.rest with
      | [] => (.done, { h with cursor := none, totalChanges := h.totalChanges + c.changes })
      | row :: rest => (.row, { h with cursor := some { c with row, rest } })

def sqlite3Reset (h : Handle σ) : Handle σ :=
  { h with cursor := none, totalChanges := h.totalChanges + (h.cursor.elim 0 (·.changes)) }

def sqlite3ClearBindings (h : Handle σ) : Handle σ :=
  { h with bindings := List.replicate h.stmt.parameters.length .null }

/-- The `sqlite3_bind_*` functions; parameters are numbered from 1. -/
def sqlite3Bind (h : Handle σ) (j : Nat) (c : Cell) : Handle σ :=
  { h with bindings := h.bindings.set (j - 1) c }

/-- The row that the `sqlite3_column_*` functions read: NULLs when there is none. -/
def currentRow (h : Handle σ) : Row :=
  match h.cursor with
  | some c => c.row
  | none => List.replicate h.stmt.columns.length .null

end Handle

def sqlite3Column (row : Row) (j : Nat) : Cell := row[j]?.getD .null

def rowsOf (stmt : Stmt σ) : σ → List (List Cell) → List Row
  | _, [] => []
  | db, b :: bindings => (stmt.run db b).rows ++ rowsOf stmt (stmt.run db b).db bindings

def dbAfter (stmt : Stmt σ) : σ → List (List Cell) → σ
  | db, [] => db
  | db, b :: bindings => dbAfter stmt (stmt.run db b).db bindings

theorem rowsOf_append (stmt : Stmt σ) (db : σ) (bindings more : List (List Cell)) :
    rowsOf stmt db (bindings ++ more) =
      rowsOf stmt db bindings ++ rowsOf stmt (dbAfter stmt db bindings) more := by
  induction bindings generalizing db with
  | nil => rfl
  | cons b bindings ih => simp [rowsOf, dbAfter, ih]

theorem dbAfter_append (stmt : Stmt σ) (db : σ) (bindings more : List (List Cell)) :
    dbAfter stmt db (bindings ++ more) = dbAfter stmt (dbAfter stmt db bindings) more := by
  induction bindings generalizing db with
  | nil => rfl
  | cons b bindings ih => exact ih _

end RSQLCipher.Statement
