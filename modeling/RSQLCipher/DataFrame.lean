import RSQLCipher.Column
import RSQLCipher.Statement

namespace RSQLCipher.DataFrame

open RSQLCipher.Values RSQLCipher.ColumnDataSource RSQLCipher.Column RSQLCipher.Statement

/-- A data frame that is being filled. `received` is the list of rows that its columns
were given; it is there for the specifications only. -/
structure DbDataFrame where
  nMax : Int
  i : Nat
  data : List DbColumn
  names : List String
  received : List Row

/-- A data frame as it is returned, with the warnings that the call gives. -/
structure Fetched where
  names : List String
  columns : List Sexp
  nrow : Nat
  warnings : List String
  received : List Row

namespace DbDataFrame

def newColumns (factory : Nat → SqliteColumnDataSource) (nMax : Int) :
    Nat → List DataType → List DbColumn
  | _, [] => []
  | j, dt :: types => DbColumn.new (factory j) dt nMax :: newColumns factory nMax (j + 1) types

def new (factory : Nat → SqliteColumnDataSource) (names : List String) (nMax : Int)
    (types : List DataType) : DbDataFrame where
  nMax := nMax
  i := 0
  data := newColumns factory nMax 0 types
  names := names
  received := []

def setColumns (row : Row) : Nat → List DbColumn → Except Fault (List DbColumn)
  | _, [] => .ok []
  | j, col :: columns => do
    let col ← col.setColValue (sqlite3Column row j)
    return col :: (← setColumns row (j + 1) columns)

def setColValues (data : DbDataFrame) (row : Row) : Except Fault DbDataFrame := do
  let columns ← setColumns row 0 data.data
  return { data with data := columns, received := data.received ++ [row] }

def checksInterrupt (data : DbDataFrame) : Bool := decide ((data.i + 1) % 1024 = 0)

/-- The counter after `advance`, and whether there is room for more rows. -/
def advance (data : DbDataFrame) : DbDataFrame × Bool :=
  ({ data with i := data.i + 1 }, decide (data.nMax < 0 ∨ (data.i + 1 : Int) < data.nMax))

def getNcols (data : DbDataFrame) : Nat := data.data.length

def finalizeCols (data : DbDataFrame) : DbDataFrame :=
  { data with data := data.data.map (·.finalize data.i) }

def getData (data : DbDataFrame) : Except Fault (Fetched × List DataType) := do
  let data := data.finalizeCols
  let columns ← data.data.mapM DbColumn.toSexp
  return ({ names := data.names
            columns := columns
            nrow := data.i
            warnings := (data.data.zip data.names).filterMap fun (col, name) =>
              col.warnTypeConflicts name
            received := data.received },
          data.data.map DbColumn.getType)

end DbDataFrame

end RSQLCipher.DataFrame
