import RSQLCipher.DataFrame
import RSQLCipher.FlatColumn

namespace RSQLCipher.FrameContents

open RSQLCipher.Values RSQLCipher.ColumnDataSource RSQLCipher.ColumnStorage RSQLCipher.Column
open RSQLCipher.Statement RSQLCipher.DataFrame RSQLCipher.FlatColumn RSQLCipher.ChunkContents
open DbDataFrame

def cellsOf (rows : List Row) (j : Nat) : List Cell := rows.map fun row => sqlite3Column row j

/-- The columns from some position on were given the cells of a list of rows. -/
inductive Filled (factory : Nat → SqliteColumnDataSource) (nMax : Int) (rows : List Row) :
    Nat → List DataType → List DbColumn → Prop
  | nil (j : Nat) : Filled factory nMax rows j [] []
  | cons {j : Nat} {dt : DataType} {types : List DataType} {col : DbColumn}
      {columns : List DbColumn}
      (h : (DbColumn.new (factory j) dt nMax).setColValues (cellsOf rows j) = .ok col)
      (rest : Filled factory nMax rows (j + 1) types columns) :
      Filled factory nMax rows j (dt :: types) (col :: columns)

theorem filled_new (factory : Nat → SqliteColumnDataSource) (nMax : Int) (j : Nat)
    (types : List DataType) : Filled factory nMax [] j types (newColumns factory nMax j types) := by
  induction types generalizing j with
  | nil => exact .nil j
  | cons dt types ih => exact .cons rfl (ih (j + 1))

theorem setColValue_snoc {factory : Nat → SqliteColumnDataSource} {nMax : Int} {rows : List Row}
    {j : Nat} {dt : DataType} {col : DbColumn}
    (h : (DbColumn.new (factory j) dt nMax).setColValues (cellsOf rows j) = .ok col) (row : Row) :
    ∃ col', col.setColValue (sqlite3Column row j) = .ok col' ∧
      (DbColumn.new (factory j) dt nMax).setColValues (cellsOf (rows ++ [row]) j) = .ok col' := by
  obtain ⟨col₁, hcol₁, hrep, -⟩ := batch_spec (factory j) dt nMax (cellsOf rows j)
  rw [h] at hcol₁
  obtain rfl := Except.ok.inj hcol₁
  obtain ⟨col', hset, -, -⟩ := setColValue_spec hrep (sqlite3Column row j)
  refine ⟨col', hset, ?_⟩
  simp only [DbColumn.setColValues, cellsOf, List.map_append, List.map_cons, List.map_nil,
    List.foldlM_append] at h ⊢
  rw [h]
  simp only [bind, Except.bind, List.foldlM_cons, hset, List.foldlM_nil]
  rfl

theorem setColumns_spec {factory : Nat → SqliteColumnDataSource} {nMax : Int} {rows : List Row}
    {j : Nat} {types : List DataType} {columns : List DbColumn}
    (h : Filled factory nMax rows j types columns) (row : Row) :
    ∃ columns', setColumns row j columns = .ok columns' ∧
      Filled factory nMax (rows ++ [row]) j types columns' := by
  induction h with
  | nil j => exact ⟨[], rfl, .nil j⟩
  | cons hcol _ ih =>
    obtain ⟨columns', hcolumns, hfilled⟩ := ih
    obtain ⟨col', hset, hcol'⟩ := setColValue_snoc hcol row
    refine ⟨col' :: columns', ?_, .cons hcol' hfilled⟩
    simp only [setColumns, hset, bind, Except.bind, hcolumns]
    rfl

def vectors (factory : Nat → SqliteColumnDataSource) (rows : List Row) (n : Nat) :
    Nat → List DataType → List Sexp
  | _, [] => []
  | j, dt :: types =>
    { allocate n (finalType (factory j) dt (cellsOf rows j)) with
      elems := (flatVector (factory j) dt (cellsOf rows j)).elems.take n } ::
      vectors factory rows n (j + 1) types

def fixedTypes (factory : Nat → SqliteColumnDataSource) (rows : List Row) :
    Nat → List DataType → List DataType
  | _, [] => []
  | j, dt :: types =>
    finalType (factory j) dt (cellsOf rows j) :: fixedTypes factory rows (j + 1) types

theorem vectors_getElem? (factory : Nat → SqliteColumnDataSource) (rows : List Row) (n j : Nat)
    (types : List DataType) (k : Nat) :
    (vectors factory rows n j types)[k]? = types[k]?.map fun dt =>
      { allocate n (finalType (factory (j + k)) dt (cellsOf rows (j + k))) with
        elems := (flatVector (factory (j + k)) dt (cellsOf rows (j + k))).elems.take n } := by
  induction types generalizing j k with
  | nil => rfl
  | cons dt types ih =>
    cases k with
    | zero => rfl
    | succ k =>
      rw [vectors, List.getElem?_cons_succ, ih, List.getElem?_cons_succ, Nat.add_right_comm j 1 k,
        Nat.add_assoc j k 1]

theorem fixedTypes_getElem? (factory : Nat → SqliteColumnDataSource) (rows : List Row) (j : Nat)
    (types : List DataType) (k : Nat) :
    (fixedTypes factory rows j types)[k]? = types[k]?.map fun dt =>
      finalType (factory (j + k)) dt (cellsOf rows (j + k)) := by
  induction types generalizing j k with
  | nil => rfl
  | cons dt types ih =>
    cases k with
    | zero => rfl
    | succ k =>
      rw [fixedTypes, List.getElem?_cons_succ, ih, List.getElem?_cons_succ, Nat.add_right_comm j 1 k,
        Nat.add_assoc j k 1]

theorem length_vectors (factory : Nat → SqliteColumnDataSource) (rows : List Row) (n j : Nat)
    (types : List DataType) : (vectors factory rows n j types).length = types.length := by
  induction types generalizing j with
  | nil => rfl
  | cons dt types ih => exact congrArg (· + 1) (ih (j + 1))

theorem length_fixedTypes (factory : Nat → SqliteColumnDataSource) (rows : List Row) (j : Nat)
    (types : List DataType) : (fixedTypes factory rows j types).length = types.length := by
  induction types generalizing j with
  | nil => rfl
  | cons dt types ih => exact congrArg (· + 1) (ih (j + 1))

theorem filled_getType {factory : Nat → SqliteColumnDataSource} {nMax : Int} {rows : List Row}
    {j : Nat} {types : List DataType} {columns : List DbColumn}
    (h : Filled factory nMax rows j types columns) (n : Nat) :
    (columns.map (·.finalize n)).map DbColumn.getType = fixedTypes factory rows j types := by
  induction h with
  | nil => rfl
  | @cons j dt types col columns hcol _ ih =>
    obtain ⟨col₁, hcol₁, -, -, htype, -⟩ := batch_spec (factory j) dt nMax (cellsOf rows j)
    rw [hcol] at hcol₁
    obtain rfl := Except.ok.inj hcol₁
    simp only [List.map_cons, fixedTypes, ih]
    rw [← htype]
    rfl

theorem filled_toSexp {factory : Nat → SqliteColumnDataSource} {nMax : Int} {rows : List Row}
    {j : Nat} {types : List DataType} {columns : List DbColumn}
    (h : Filled factory nMax rows j types columns) (n : Nat) (hn : n ≤ rows.length) :
    (columns.map (·.finalize n)).mapM DbColumn.toSexp = .ok (vectors factory rows n j types) := by
  induction h with
  | nil => rfl
  | @cons j dt types col columns hcol _ ih =>
    obtain ⟨col₁, hcol₁, hrep, -⟩ := batch_spec (factory j) dt nMax (cellsOf rows j)
    rw [hcol] at hcol₁
    obtain rfl := Except.ok.inj hcol₁
    have hlen : n ≤ (flatColumn (factory j) (startType dt) (cellsOf rows j)).length := by
      simpa [length_flatColumn, cellsOf] using hn
    have hsexp := toSexp_spec hrep n hlen
    simp only [List.map_cons, List.mapM_cons, hsexp, ih, bind, Except.bind]
    rfl

/-- A data frame that was given some rows, and counts some of them. -/
structure Holding (factory : Nat → SqliteColumnDataSource) (names : List String) (nMax : Int)
    (types : List DataType) (rows : List Row) (data : DbDataFrame) : Prop where
  names : data.names = names
  limit : data.nMax = nMax
  received : data.received = rows
  filled : Filled factory nMax rows 0 types data.data

theorem holding_new (factory : Nat → SqliteColumnDataSource) (names : List String) (nMax : Int)
    (types : List DataType) :
    Holding factory names nMax types [] (DbDataFrame.new factory names nMax types) :=
  ⟨rfl, rfl, rfl, filled_new factory nMax 0 types⟩

theorem holding_setColValues {factory : Nat → SqliteColumnDataSource} {names : List String}
    {nMax : Int} {types : List DataType} {rows : List Row} {data : DbDataFrame}
    (h : Holding factory names nMax types rows data) (row : Row) :
    ∃ data', data.setColValues row = .ok data' ∧ data'.i = data.i ∧
      Holding factory names nMax types (rows ++ [row]) data' := by
  obtain ⟨columns, hset, hfilled⟩ := setColumns_spec h.filled row
  refine ⟨{ data with data := columns, received := data.received ++ [row] }, ?_, rfl,
    h.names, h.limit, by rw [h.received], hfilled⟩
  simp only [setColValues, hset]
  rfl

/-- The data frame that is returned: the counted rows in vectors of the final types,
which are the new types of the result. -/
theorem getData_spec {factory : Nat → SqliteColumnDataSource} {names : List String}
    {nMax : Int} {types : List DataType} {rows : List Row} {data : DbDataFrame}
    (h : Holding factory names nMax types rows data) (hi : data.i ≤ rows.length) :
    ∃ out, data.getData = .ok (out, fixedTypes factory rows 0 types) ∧ out.names = names ∧
      out.received = rows ∧ out.nrow = data.i ∧
      out.columns = vectors factory rows data.i 0 types := by
  have hsexp := filled_toSexp h.filled data.i hi
  have htypes := filled_getType h.filled data.i
  simp only [getData, finalizeCols, hsexp, htypes, bind, Except.bind]
  exact ⟨_, rfl, h.names, h.received, rfl, rfl⟩

theorem getData_types {factory : Nat → SqliteColumnDataSource} {names : List String}
    {nMax : Int} {types types' : List DataType} {rows : List Row} {data : DbDataFrame} {out : Fetched}
    (h : Holding factory names nMax types rows data) (hi : data.i ≤ rows.length)
    (hdata : data.getData = .ok (out, types')) : types' = fixedTypes factory rows 0 types := by
  obtain ⟨out', hdata', -⟩ := getData_spec h hi
  exact (Prod.mk.inj (Except.ok.inj (hdata.symm.trans hdata'))).2

theorem getData_warnings {data : DbDataFrame} {out : Fetched} {types : List DataType}
    (h : data.getData = .ok (out, types)) :
    out.warnings = ((data.data.map (·.finalize data.i)).zip data.names).filterMap fun (col, name) =>
      col.warnTypeConflicts name := by
  cases hcolumns : (data.data.map (·.finalize data.i)).mapM DbColumn.toSexp with
  | error e => simp [getData, finalizeCols, hcolumns, bind, Except.bind] at h
  | ok columns =>
    simp only [getData, finalizeCols, hcolumns, bind, Except.bind] at h
    obtain ⟨rfl, -⟩ := Prod.mk.inj (Except.ok.inj h)
    rfl

end RSQLCipher.FrameContents
