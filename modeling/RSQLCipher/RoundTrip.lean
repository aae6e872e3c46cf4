import RSQLCipher.DataTypes
import RSQLCipher.Batching

namespace RSQLCipher.RoundTrip

open RSQLCipher.Library RSQLCipher.Values RSQLCipher.DeclaredType RSQLCipher.Params
open RSQLCipher.ColumnDataSource RSQLCipher.ColumnStorage RSQLCipher.Column RSQLCipher.Statement
open RSQLCipher.DataFrame
open RSQLCipher.ResultImpl RSQLCipher.ChunkContents RSQLCipher.FlatColumn RSQLCipher.FrameContents
open RSQLCipher.FetchedValues RSQLCipher.Stepping RSQLCipher.Fetching RSQLCipher.Binding
open RSQLCipher.Sessions RSQLCipher.Batching RSQLCipher.DataTypes SqliteResult Session
open SqliteColumnDataSource

variable {extendedTypes : Bool} (storage : Storage) (frame : RDataFrame extendedTypes)

/-- The insertion of a row into a table whose columns have the types. -/
def insertInto (types : List String) : Stmt (List Row) where
  columns := []
  parameters := List.replicate types.length none
  run table bindings :=
    { rows := [], db := table ++ [List.zipWith storage.column types bindings], changes := 1 }

/-- `SELECT *` from the table. -/
def selectAll (names types : List String) : Stmt (List Row) where
  columns := names.zip (types.map fun type => some (declared type))
  parameters := []
  run table _ := { rows := table, db := table, changes := 0 }

/-- A batch of a column: elements from some row on, each equal to the one that was written,
and missing exactly where that was missing. -/
structure BatchOf (data : ColumnData) (start n : ℕ) (x : Sexp) : Prop where
  type : x.type = data.sexpType
  cls : x.cls = data.cls
  length : x.length = n
  elements : ∀ k < n, ∃ v e, data.values[start + k]? = some v ∧ x.elems[k]? = some e ∧
    (isNA data.dataType e ↔ v = .missing) ∧ (v ≠ .missing → v.Equals e)

/-- A fetch returns the next rows of the data frame, as many as were asked for, and gives no
warning. -/
def ReadsBack (env : Environment) (s : Session (List Row)) : Call → Prop
  | .fetch n => ∃ out r, fetch env n s.result = .ok out r ∧ out.warnings = [] ∧
      out.names = frame.names ∧
      out.nrow = (if n < 0 then frame.nrow - s.delivered.length
        else min n.toNat (frame.nrow - s.delivered.length)) ∧
      out.columns.length = frame.columns.length ∧
      ∀ (j : ℕ) c, frame.columns[j]? = some c → ∃ x, out.columns[j]? = some x ∧
        BatchOf c.data s.delivered.length out.nrow x
  | _ => True

section Writing

/-- The cells of a row of the data frame, as they are bound. -/
def boundRow (g : ℕ) : List Cell := frame.columns.map fun c => c.data.cells[g]?.getD .null

def storedRow (g : ℕ) : Row :=
  frame.columns.map fun c => storage.column c.data.declType (c.data.cells[g]?.getD .null)

def storedTable : List Row := (List.range frame.nrow).map (storedRow storage frame)

theorem rowsOf_insertInto (types : List String) (table : List Row) (groups : List (List Cell)) :
    rowsOf (insertInto storage types) table groups = [] := by
  induction groups generalizing table with
  | nil => rfl
  | cons b groups ih => exact ih _

theorem dbAfter_insertInto (types : List String) (table : List Row) (groups : List (List Cell)) :
    dbAfter (insertInto storage types) table groups =
      table ++ groups.map (List.zipWith storage.column types) := by
  induction groups generalizing table with
  | nil => simp [dbAfter]
  | cons b groups ih =>
    rw [dbAfter, ih]
    simp [insertInto]

theorem zipWith_boundRow (g : ℕ) :
    List.zipWith storage.column frame.declTypes (boundRow frame g) = storedRow storage frame g := by
  simp only [RDataFrame.declTypes, boundRow, storedRow, List.zipWith_map, List.zipWith_self]

theorem length_params (p : Param) (hp : p ∈ frame.params) : p.length = frame.nrow := by
  obtain ⟨c, hc, rfl⟩ := List.mem_map.mp hp
  rw [length_param, frame.lengths c hc]

theorem groupBindings_columns (columns : List (FrameColumn extendedTypes)) (g : ℕ)
    (hg : ∀ c ∈ columns, g < c.data.values.length) :
    groupBindings (columns.map (·.data.param)) g =
      some (columns.map fun c => c.data.cells[g]?.getD .null) := by
  induction columns with
  | nil => rfl
  | cons c columns ih =>
    have hlt : g < c.data.cells.length := by
      rw [length_cells]
      exact hg c List.mem_cons_self
    rw [List.map_cons, groupBindings_cons, ih fun d hd => hg d (List.mem_cons_of_mem c hd),
      cell_param, Param.elt, List.getElem?_eq_getElem hlt]
    simp [List.getElem?_eq_getElem hlt]
    rfl

theorem groupCount_params : groupCount frame.params = frame.nrow := by
  obtain ⟨c, columns, hcolumns⟩ := List.exists_cons_of_ne_nil frame.nonempty
  have hlength := length_params frame c.data.param (by simp [RDataFrame.params, hcolumns])
  rw [groupCount, RDataFrame.params, hcolumns, List.map_cons, List.head?_cons, Option.map_some,
    Option.getD_some, hlength]

theorem groupBindings_params (g : ℕ) (hg : g < frame.nrow) :
    groupBindings frame.params g = some (boundRow frame g) :=
  groupBindings_columns frame.columns g fun c hc => by rwa [frame.lengths c hc]

theorem allBound_params : AllBound frame.params := by
  intro g hg
  rw [groupBindings_params frame g (by rwa [groupCount_params] at hg)]
  exact Option.some_ne_none _

theorem allGroups_params : allGroups frame.params = (List.range frame.nrow).map (boundRow frame) := by
  obtain ⟨hlength, hget⟩ := allGroups_getElem (allBound_params frame)
  rw [groupCount_params] at hlength hget
  apply List.ext_getElem?
  intro g
  by_cases hg : g < frame.nrow
  · rw [hget g hg, groupBindings_params frame g hg, List.getElem?_map, List.getElem?_range hg,
      Option.map_some]
  · rw [List.getElem?_eq_none (by omega), List.getElem?_eq_none (by simpa using hg)]

theorem dbAfter_params :
    dbAfter (insertInto storage frame.declTypes) [] (allGroups frame.params) =
      storedTable storage frame := by
  rw [dbAfter_insertInto, allGroups_params, List.map_map, List.nil_append]
  apply List.map_congr_left
  exact fun g _ => zipWith_boundRow storage frame g

theorem validateParams_params : validateParams frame.params = .ok () := by
  have hlength := length_params frame
  cases hparams : frame.params with
  | nil => rfl
  | cons p params =>
    rw [hparams] at hlength
    have hnone : params.findIdx? (fun q => q.length ≠ p.length) = none := by
      rw [List.findIdx?_eq_none_iff]
      intro q hq
      simp [hlength q (List.mem_cons_of_mem p hq), hlength p List.mem_cons_self]
    rw [validateParams, hnone]

theorem nparams_insertInto (totalChanges : ℕ) :
    (initial (insertInto storage frame.declTypes) [] totalChanges extendedTypes).nparams =
      frame.columns.length := by
  simp [nparams, initial, Handle.prepared, insertInto, RDataFrame.declTypes]

theorem nparams_insertInto_ne_zero (totalChanges : ℕ) :
    (initial (insertInto storage frame.declTypes) [] totalChanges extendedTypes).nparams ≠ 0 := by
  rw [nparams_insertInto]
  exact fun h0 => frame.nonempty (List.length_eq_zero_iff.mp h0)

theorem dbBind_insertInto {env : Environment} (hcalls : ∀ k, env.fails k = none) (totalChanges : ℕ) :
    ∃ r, dbBind env frame.params (initial (insertInto storage frame.declTypes) [] totalChanges
        extendedTypes) = .ok () r ∧ r.complete = true ∧
      r.handle.db = storedTable storage frame := by
  have hsized := sized_initial (insertInto storage frame.declTypes) [] totalChanges extendedTypes
  have haccepts : Accepts (initial (insertInto storage frame.declTypes) [] totalChanges
      extendedTypes) frame.params := by
    refine ⟨validateParams_params frame, nparams_insertInto_ne_zero storage frame totalChanges, ?_⟩
    rw [nparams_insertInto, RDataFrame.params, List.length_map]
  have hbind := dbBind_spec env frame.params _ hsized haccepts
  cases hrun : dbBind env frame.params (initial (insertInto storage frame.declTypes) [] totalChanges
      extendedTypes) with
  | error e r =>
    rw [hrun] at hbind
    exact absurd (noFailure_bound hcalls (allBound_params frame) hbind.values hbind.groups) hbind.cause
  | ok u r =>
    rw [hrun] at hbind
    have hpending := hbind.ready.pending
    rw [hbind.stmt] at hpending
    have hcomplete : r.complete = true := by
      by_contra hc
      rw [pending_running (Bool.eq_false_of_not_eq_true hc)] at hpending
      exact List.cons_ne_nil _ _ (hpending.trans (rowsOf_insertInto storage _ _ _))
    have hdb := hbind.ready.planDb
    rw [planDb, if_pos hcomplete, hbind.stmt] at hdb
    exact ⟨r, rfl, hcomplete, hdb.trans (dbAfter_params storage frame)⟩

end Writing

section Columns

/-- A column whose declared type is the type of all of its values. -/
structure Uniform (src : SqliteColumnDataSource) (dt : DataType) (cells : List Cell) : Prop where
  declared : src.getDeclDataType = dt
  plain : dt ≠ .bool
  items : ∀ c ∈ cells, src.getDataType c = if c = .null then .unknown else dt

variable {src : SqliteColumnDataSource} {dt incoming : DataType} {cells : List Cell}

theorem item_uniform (hu : Uniform src dt cells) (c : Cell) (hc : c ∈ cells) (hnull : c ≠ .null) :
    src.getDataType c = dt := by
  rw [hu.items c hc, if_neg hnull]

theorem finalType_uniform (hu : Uniform src dt cells) (h : incoming = .unknown ∨ incoming = dt) :
    finalType src incoming cells = dt :=
  finalType_oneType hu.declared hu.plain (item_uniform hu) h

theorem warnTypeConflicts_uniform (hu : Uniform src dt cells)
    (h : incoming = .unknown ∨ incoming = dt) {nMax : Int} {col : DbColumn}
    (hcol : (DbColumn.new src incoming nMax).setColValues cells = .ok col) (n : ℕ) (name : String) :
    (col.finalize n).warnTypeConflicts name = none := by
  obtain ⟨col', hcol', -, hseen, htype, -⟩ := batch_spec src incoming nMax cells
  obtain rfl := Except.ok.inj (hcol.symm.trans hcol')
  have hfinal : (col.finalize n).getType = dt := htype.trans (finalType_uniform hu h)
  have hnone : (col.finalize n).typeConflicts = [] := by
    rw [DbColumn.typeConflicts, List.filter_eq_nil_iff]
    intro seen _
    have hcases : seen ∈ col.dataTypesSeen → seen = .unknown ∨ seen = dt := by
      intro hmem
      obtain ⟨c, hc, rfl⟩ := (hseen seen).mp hmem
      rw [hu.items c hc]
      by_cases hnull : c = .null
      · exact .inl (if_pos hnull)
      · exact .inr (if_neg hnull)
    rw [decide_eq_true_eq, hfinal]
    rintro ⟨hmem, -, hunknown, -, hne⟩
    obtain hseen | hseen := hcases hmem
    · exact hunknown hseen
    · exact hne hseen
  rw [DbColumn.warnTypeConflicts, if_pos hnone]

end Columns

section Frames

variable {factory : ℕ → SqliteColumnDataSource} {rows : List Row}

/-- A column that begins without a type, or at that of its values. -/
def Settled (src : SqliteColumnDataSource) (incoming : DataType) (cells : List Cell) : Prop :=
  ∃ dt, Uniform src dt cells ∧ (incoming = .unknown ∨ incoming = dt)

theorem filled_silent {nMax : Int} {j : ℕ} {types : List DataType} {columns : List DbColumn}
    (h : Filled factory nMax rows j types columns)
    (hsettled : ∀ k dt, types[k]? = some dt → Settled (factory (j + k)) dt (cellsOf rows (j + k))) :
    ∀ col ∈ columns, ∀ n name, (col.finalize n).warnTypeConflicts name = none := by
  induction h with
  | nil => simp
  | @cons j dt types col columns hcol _ ih =>
    obtain ⟨kind, huniform, hincoming⟩ := hsettled 0 dt rfl
    have hrest := ih fun k dt' hk => by
      have hnext := hsettled (k + 1) dt' hk
      rwa [← Nat.add_assoc, Nat.add_right_comm] at hnext
    intro d hd n name
    obtain rfl | hd := List.mem_cons.mp hd
    · exact warnTypeConflicts_uniform huniform hincoming hcol n name
    · exact hrest d hd n name

theorem getData_silent {data : DbDataFrame} {nMax : Int} {types : List DataType}
    (h : Filled factory nMax rows 0 types data.data)
    (hsettled : ∀ k dt, types[k]? = some dt → Settled (factory k) dt (cellsOf rows k))
    {out : Fetched} {types' : List DataType} (hdata : data.getData = .ok (out, types')) :
    out.warnings = [] := by
  have hsilent := filled_silent h fun k dt hk => by
    rw [Nat.zero_add]
    exact hsettled k dt hk
  rw [getData_warnings hdata, List.filterMap_eq_nil_iff]
  rintro ⟨col, name⟩ hmem
  obtain ⟨d, hd, rfl⟩ := List.mem_map.mp (List.of_mem_zip hmem).1
  exact hsilent d hd data.i name

theorem getNcols_new (names : List String) (nMax : Int) (types : List DataType) :
    (DbDataFrame.new factory names nMax types).getNcols = types.length := by
  have hlength : ∀ j, (DbDataFrame.newColumns factory nMax j types).length = types.length := by
    induction types with
    | nil => exact fun j => rfl
    | cons dt types ih => exact fun j => congrArg (· + 1) (ih (j + 1))
  exact hlength 0

end Frames

section Reading

theorem columns_selectAll : (selectAll frame.names frame.declTypes).columns =
    frame.columns.map fun c => (c.name, some (declared c.data.declType)) := by
  simp only [selectAll, RDataFrame.names, RDataFrame.declTypes, List.map_map]
  exact List.zip_map'

/-- The state of a session that reads the table: each column has no type yet, or the type of
its values. -/
structure Reading (env : Environment) (s : Session (List Row)) : Prop where
  undisturbed : Undisturbed env s
  ready : s.result.ready = true
  truth : s.truth = storedTable storage frame
  stmt : s.result.handle.stmt = selectAll frame.names frame.declTypes
  length : s.result.types.length = frame.columns.length
  types : ∀ (j : ℕ) dt c, s.result.types[j]? = some dt → frame.columns[j]? = some c →
    dt = .unknown ∨ dt = c.data.dataType

variable {storage frame} {env : Environment}

theorem types_create {stmt : Stmt (List Row)} {db : List Row} {totalChanges : ℕ}
    {r : SqliteResult (List Row)}
    (h0 : stmt.parameters = [])
    (h : create env (initial stmt db totalChanges extendedTypes) = .ok () r) :
    r.types = List.replicate stmt.columns.length .unknown := by
  have hspec := afterBind_spec env _ (sized_initial stmt db totalChanges extendedTypes) rfl
  rw [← create_query env db totalChanges extendedTypes h0, h] at hspec
  exact hspec.1.types

theorem reading_start (hcalls : ∀ k, env.fails k = none) (totalChanges : ℕ) :
    ∃ s, start env (selectAll frame.names frame.declTypes) (storedTable storage frame) totalChanges
      extendedTypes = some s ∧ Reading storage frame env s := by
  obtain ⟨s, hs⟩ := exists_start hcalls (selectAll frame.names frame.declTypes)
    (storedTable storage frame) totalChanges extendedTypes
  have hundisturbed := undisturbed_started hcalls (started_start hs)
  have hcreate := create_spec env (selectAll frame.names frame.declTypes)
    (storedTable storage frame) totalChanges extendedTypes rfl
  refine ⟨s, hs, ?_⟩
  cases hrun : create env (initial (selectAll frame.names frame.declTypes)
      (storedTable storage frame) totalChanges extendedTypes) with
  | error e r => simp [start, hrun] at hs
  | ok u r =>
    rw [hrun] at hcreate
    simp only [start, hrun, Option.some.injEq] at hs
    have htypes := types_create rfl hrun
    rw [columns_selectAll, List.length_map] at htypes
    subst hs
    refine ⟨hundisturbed, hcreate.1.ready, ?_, hcreate.2.2, ?_, ?_⟩
    · simp [opened, selectAll, rowsOf]
    · show r.types.length = frame.columns.length
      rw [htypes, List.length_replicate]
    · intro j dt c hdt _
      replace hdt : r.types[j]? = some dt := hdt
      rw [htypes, List.getElem?_replicate] at hdt
      split at hdt
      · exact .inl (Option.some.inj hdt).symm
      · cases hdt

theorem decltype_factory {s : Session (List Row)} (h : Reading storage frame env s) {j : ℕ}
    {c : FrameColumn extendedTypes} (hj : frame.columns[j]? = some c) :
    (s.result.factory env j).decltype = some (declared c.data.declType) := by
  simp [factory, h.stmt, columns_selectAll, hj]

variable (storage) in
/-- The cell of a stored row is read as the element of the data frame. -/
theorem reads_storedRow (src : SqliteColumnDataSource) {g j : ℕ} {c : FrameColumn extendedTypes}
    (hg : g < frame.nrow) (hj : frame.columns[j]? = some c) :
    ∃ v, c.data.values[g]? = some v ∧
      Reads src c.data.dataType v (sqlite3Column (storedRow storage frame g) j) := by
  have hvalues : g < c.data.values.length := by
    rwa [frame.lengths c (List.mem_of_getElem? hj)]
  have hcells : g < c.data.cells.length := by rwa [length_cells]
  have hv := List.getElem?_eq_getElem hvalues
  have hc := List.getElem?_eq_getElem hcells
  refine ⟨_, hv, ?_⟩
  have hcell : sqlite3Column (storedRow storage frame g) j =
      storage.column c.data.declType c.data.cells[g] := by
    simp [sqlite3Column, storedRow, hj, hc]
  rw [hcell]
  exact reads_column storage src c.data g hv hc

theorem exists_storedRow {row : Row} (h : row ∈ storedTable storage frame) :
    ∃ g < frame.nrow, row = storedRow storage frame g := by
  obtain ⟨g, hg, rfl⟩ := List.mem_map.mp h
  exact ⟨g, List.mem_range.mp hg, rfl⟩

theorem uniform_rows {s : Session (List Row)} (h : Reading storage frame env s) {rows : List Row}
    (hrows : ∀ row ∈ rows, row ∈ storedTable storage frame) {j : ℕ} {c : FrameColumn extendedTypes}
    (hj : frame.columns[j]? = some c) :
    Uniform (s.result.factory env j) c.data.dataType (cellsOf rows j) := by
  have hdecl := decltype_factory h hj
  refine ⟨getDeclDataType_declType c.data hdecl, by cases c.data <;> simp [ColumnData.dataType], ?_⟩
  intro cell hcell
  obtain ⟨row, hrow, rfl⟩ := List.mem_map.mp hcell
  obtain ⟨g, hg, rfl⟩ := exists_storedRow (hrows row hrow)
  obtain ⟨v, -, hreads⟩ := reads_storedRow storage (s.result.factory env j) hg hj
  rw [getDataType_declType c.data hdecl]
  by_cases hnull : sqlite3Column (storedRow storage frame g) j = .null
  · rw [if_pos hnull, hnull]
    rfl
  · rw [if_neg hnull, hreads.type hnull]

theorem length_takeMax (n : Int) (l : List Row) :
    (takeMax n l).length = if n < 0 then l.length else min n.toNat l.length := by
  unfold takeMax
  split <;> simp

theorem takeMax_getElem? {n : Int} {l : List Row} {k : ℕ} (hk : k < (takeMax n l).length) :
    (takeMax n l)[k]? = l[k]? := by
  unfold takeMax at hk ⊢
  split
  · rfl
  · rw [if_neg (by assumption), List.length_take] at hk
    exact List.getElem?_take_of_lt (by omega)

theorem mem_of_mem_takeMax {n : Int} {l : List Row} {row : Row} (h : row ∈ takeMax n l) : row ∈ l := by
  unfold takeMax at h
  split at h
  · exact h
  · exact List.mem_of_mem_take h

/-- The rows of the data frame that a fetch returns. -/
theorem received_getElem? {n : Int} {start k : ℕ} {rows : List Row}
    (hrows : rows = takeMax n ((storedTable storage frame).drop start)) (hk : k < rows.length) :
    start + k < frame.nrow ∧ rows[k]? = some (storedRow storage frame (start + k)) := by
  have hget : rows[k]? = (storedTable storage frame)[start + k]? := by
    rw [hrows] at hk ⊢
    rw [takeMax_getElem? hk, List.getElem?_drop]
  rw [List.getElem?_eq_getElem hk] at hget
  have hlt : start + k < (storedTable storage frame).length := by
    by_contra hge
    rw [List.getElem?_eq_none (not_lt.mp hge)] at hget
    cases hget
  have hnrow : start + k < frame.nrow := by simpa [storedTable] using hlt
  refine ⟨hnrow, ?_⟩
  rw [List.getElem?_eq_getElem hk, hget, storedTable, List.getElem?_map, List.getElem?_range hnrow,
    Option.map_some]

/-- A vector of cells that are read as elements of the data frame is a batch of it. -/
theorem batchOf_vector {src : SqliteColumnDataSource} {incoming : DataType} {data : ColumnData}
    {start n : ℕ} {cells : List Cell} (hn : cells.length = n)
    (hu : Uniform src data.dataType cells) (hincoming : incoming = .unknown ∨ incoming = data.dataType)
    (hcells : ∀ k < n, ∃ v c, data.values[start + k]? = some v ∧ cells[k]? = some c ∧
      Reads src data.dataType v c) :
    BatchOf data start n { allocate n (finalType src incoming cells) with
      elems := (flatVector src incoming cells).elems.take n } := by
  have hlength : (flatVector src incoming cells).elems.length = n := by
    simp [flatVector, length_flatColumn, hn]
  have hfinal := finalType_uniform hu hincoming
  refine ⟨?_, ?_, ?_, ?_⟩
  · show sexptypeFromDatatype (finalType src incoming cells) = data.sexpType
    rw [hfinal]
    cases data <;> rfl
  · show classFromDatatype (finalType src incoming cells) = data.cls
    rw [hfinal]
    cases data <;> rfl
  · show ((flatVector src incoming cells).elems.take n).length = n
    rw [List.length_take, hlength, min_self]
  · intro k hk
    obtain ⟨v, c, hv, hc, hreads⟩ := hcells k hk
    refine ⟨v, if c = .null then naElem data.dataType else convert src data.dataType c, hv, ?_, ?_⟩
    · show ((flatVector src incoming cells).elems.take n)[k]? = _
      rw [List.getElem?_take_of_lt hk,
        flatVector_oneType hu.declared hu.plain (item_uniform hu) hincoming k c hc]
    · by_cases hnull : c = .null
      · rw [if_pos hnull]
        have hmissing := hreads.null.mp hnull
        exact ⟨iff_of_true (isNA_naElem _) hmissing, fun h => absurd hmissing h⟩
      · rw [if_neg hnull]
        obtain ⟨hequals, hna⟩ := hreads.value hnull
        have hpresent : v ≠ .missing := fun h => hnull (hreads.null.mpr h)
        exact ⟨iff_of_false hna hpresent, fun _ => hequals⟩

variable (storage frame) in
/-- A fetch of a session that reads the table: it returns the next rows silently, and fixes
the types by them. -/
structure NextRows (env : Environment) (s : Session (List Row)) (n : Int) (out : Fetched)
    (r : SqliteResult (List Row)) : Prop where
  run : fetch env n s.result = .ok out r
  returned : Returned env n s.result r out
  received : out.received = takeMax n ((storedTable storage frame).drop s.delivered.length)
  warnings : out.warnings = []
  stmt : r.handle.stmt = s.result.handle.stmt
  ready : r.ready = s.result.ready
  types : r.types = fixedTypes (s.result.factory env) out.received 0 s.result.types

theorem uniform_nextRows {s : Session (List Row)} (h : Reading storage frame env s) {n : Int}
    {rows : List Row} (hrows : rows = takeMax n ((storedTable storage frame).drop s.delivered.length))
    {j : ℕ} {c : FrameColumn extendedTypes} (hj : frame.columns[j]? = some c) :
    Uniform (s.result.factory env j) c.data.dataType (cellsOf rows j) := by
  refine uniform_rows h (fun row hrow => ?_) hj
  rw [hrows] at hrow
  exact List.mem_of_mem_drop (mem_of_mem_takeMax hrow)

theorem settled_nextRows {s : Session (List Row)} (h : Reading storage frame env s) {n : Int}
    {rows : List Row} (hrows : rows = takeMax n ((storedTable storage frame).drop s.delivered.length))
    (j : ℕ) (dt : DataType) (hdt : s.result.types[j]? = some dt) :
    Settled (s.result.factory env j) dt (cellsOf rows j) := by
  have hj : j < frame.columns.length := by
    rw [← h.length]
    exact (List.getElem?_eq_some_iff.mp hdt).1
  have hc := List.getElem?_eq_getElem hj
  exact ⟨_, uniform_nextRows h hrows hc, h.types j dt _ hdt hc⟩

theorem exists_nextRows (hcalls : ∀ k, env.fails k = none) {s : Session (List Row)}
    (h : Reading storage frame env s) (n : Int) (hn : n ≠ 0) :
    ∃ out r, NextRows storage frame env s n out r := by
  have hbindable : Bindable (.fetch n) := fun params hp => by cases hp
  obtain ⟨out, r, hrun, hrows⟩ := exact_undisturbed hcalls s (.fetch n) h.undisturbed hbindable h.ready
  obtain ⟨-, hreceived⟩ := hrows hn
  rw [h.truth] at hreceived
  have hreturned := fetch_spec env n hn s.result h.undisturbed.sized h.ready
  have hfilled := fetchRows_filled env n hn s.result h.undisturbed.sized
  rw [← fetch_rows env n hn s.result h.ready, hrun] at hfilled
  rw [hrun] at hreturned
  obtain ⟨data, t, fetched, types, hfill, hdelivered, hdata, rfl, hout⟩ := hfilled
  obtain rfl := getData_types hfill.holding hfill.count.le hdata
  have hsilent := getData_silent hfill.holding.filled (settled_nextRows h hreceived) hdata
  have hncols : s.result.types.length ≠ 0 := by
    rw [h.length]
    exact fun h0 => frame.nonempty (List.length_eq_zero_iff.mp h0)
  have hkept := hdelivered.ahead.kept
  refine ⟨out, _, hrun, hreturned, hreceived, ?_, hkept.stmt, hkept.ready, rfl⟩
  rw [hout]
  simp [hsilent, getNcols_new, hncols]

theorem readsBack_nextRows {s : Session (List Row)} (h : Reading storage frame env s) {n : Int}
    {out : Fetched} {r : SqliteResult (List Row)}
    (hnext : NextRows storage frame env s n out r) :
    ReadsBack frame env s (.fetch n) := by
  have hnrow := hnext.returned.nrow
  refine ⟨out, r, hnext.run, hnext.warnings, ?_, ?_, ?_, ?_⟩
  · rw [hnext.returned.names, names, h.stmt, columns_selectAll, List.map_map]
    rfl
  · rw [hnrow, hnext.received, length_takeMax, List.length_drop, storedTable, List.length_map,
      List.length_range]
  · rw [hnext.returned.columns, length_vectors, h.length]
  · intro j c hj
    have hlt : j < s.result.types.length := by
      rw [h.length]
      exact (List.getElem?_eq_some_iff.mp hj).1
    have hdt := List.getElem?_eq_getElem hlt
    refine ⟨_, ?_, batchOf_vector ?_ (uniform_nextRows h hnext.received hj)
      (h.types j _ c hdt hj) fun k hk => ?_⟩
    · rw [hnext.returned.columns, vectors_getElem?, hdt, Option.map_some, Nat.zero_add]
    · rw [cellsOf, List.length_map, hnrow]
    · rw [hnrow] at hk
      obtain ⟨hg, hget⟩ := received_getElem? hnext.received hk
      obtain ⟨v, hv, hreads⟩ := reads_storedRow storage (s.result.factory env j) hg hj
      refine ⟨v, _, hv, ?_, hreads⟩
      rw [cellsOf, List.getElem?_map, hget, Option.map_some]

theorem reading_nextRows (hcalls : ∀ k, env.fails k = none) {s : Session (List Row)}
    (h : Reading storage frame env s) {n : Int} (hn : n ≠ 0) {out : Fetched}
    {r : SqliteResult (List Row)}
    (hnext : NextRows storage frame env s n out r) :
    Reading storage frame env (s.next env (.fetch n)) := by
  have hundisturbed := undisturbed_next hcalls s (.fetch n) h.undisturbed fun params hp => by cases hp
  rw [next_fetch_ok env n hn s hnext.run] at hundisturbed ⊢
  refine ⟨hundisturbed, hnext.ready.trans h.ready, h.truth, hnext.stmt.trans h.stmt, ?_, ?_⟩
  · show r.types.length = _
    rw [hnext.types, length_fixedTypes, h.length]
  · intro j dt c hdt hj
    replace hdt : r.types[j]? = some dt := hdt
    rw [hnext.types, fixedTypes_getElem?, Option.map_eq_some_iff] at hdt
    obtain ⟨incoming, hincoming, rfl⟩ := hdt
    rw [Nat.zero_add]
    exact .inr (finalType_uniform (uniform_nextRows h hnext.received hj)
      (h.types j incoming c hincoming hj))

end Reading

/-- A data frame that is written to a table of the types of `dbDataType` is read back by any
fetches as it was: every value, and the missing values and only these as missing. -/
theorem round_trip (env : Environment) (hcalls : ∀ k, env.fails k = none) (storage : Storage)
    (nextMethod : RObject → Except Fault (List String)) (extendedTypes : Bool)
    (frame : RDataFrame extendedTypes) (totalChanges totalChanges' : ℕ) (ns : List Int)
    (hns : ∀ n ∈ ns, n = -1 ∨ 1 ≤ n) :
    ∃ types, dbDataTypes nextMethod extendedTypes (frame.columns.map (·.object)) = .ok types ∧
      ∃ w, create env (initial (insertInto storage types) [] totalChanges extendedTypes) = .ok () w ∧
      ∃ r, dbBind env frame.params w = .ok () r ∧ r.complete = true ∧
      ∃ s, start env (selectAll frame.names types) r.handle.db totalChanges' extendedTypes = some s ∧
        Along (next env) (ReadsBack frame env) s (ns.map .fetch) := by
  obtain ⟨r, hbind, hcomplete, hdb⟩ := dbBind_insertInto storage frame hcalls totalChanges
  obtain ⟨s, hstart, hreading⟩ := reading_start hcalls totalChanges'
  refine ⟨frame.declTypes, dbDataTypes_ordinary nextMethod frame.columns, _,
    create_params env _ (nparams_insertInto_ne_zero storage frame totalChanges), r, hbind,
    hcomplete, s, by rw [hdb]; exact hstart, ?_⟩
  have hcalls' : ∀ c ∈ ns.map Call.fetch, ∃ n, c = .fetch n ∧ n ≠ 0 := by
    intro c hc
    obtain ⟨n, hn, rfl⟩ := List.mem_map.mp hc
    refine ⟨n, rfl, ?_⟩
    obtain rfl | hpos := hns n hn
    · decide
    · omega
  have hfetch : ∀ t c, Reading storage frame env t → (∃ n, c = .fetch n ∧ n ≠ 0) →
      ReadsBack frame env t c ∧ Reading storage frame env (next env t c) := by
    rintro t - h ⟨n, rfl, hn⟩
    obtain ⟨out, r, hnext⟩ := exists_nextRows hcalls h n hn
    exact ⟨readsBack_nextRows h hnext, reading_nextRows hcalls h hn hnext⟩
  exact along_of_invariant (fun t c h hc => (hfetch t c h hc).2) (fun t c h hc => (hfetch t c h hc).1)
    hreading _ (along_of_forall (next env) s _ hcalls')

/-- Columns that keep what is bound to them, but for whole numbers in columns of reals. -/
def keeping : Storage where
  store
    | .real, .integer v => .float (Binary64.ofInt v.toInt)
    | _, c => c
  store_null a := by cases a <;> rfl
  store_integer _ := rfl
  store_whole _ := rfl
  store_float x _ := ⟨x, rfl, .inl rfl⟩
  store_text _ := rfl
  store_blob _ := rfl

/-- A logical column, one of doubles, and one of raw vectors with an empty one; their first
elements are missing. -/
def frameOfTwo : RDataFrame false where
  columns :=
    [{ name := "a", data := .logical [naInteger, 1], classes := [], ordinary := by simp },
      { name := "b", data := .double [naReal, Binary64.ofInt 2], classes := [], ordinary := by simp },
      { name := "c", data := .list [none, some []], classes := ["AsIs"],
        ordinary := by decide }]
  nrow := 2
  nonempty := by simp
  lengths := by simp [ColumnData.values]

theorem round_trip_frameOfTwo :
    ∃ types, dbDataTypes (fun _ => .ok []) false (frameOfTwo.columns.map (·.object)) = .ok types ∧
      ∃ w, create calm (initial (insertInto keeping types) [] 0 false) = .ok () w ∧
      ∃ r, dbBind calm frameOfTwo.params w = .ok () r ∧ r.complete = true ∧
      ∃ s, start calm (selectAll frameOfTwo.names types) r.handle.db 2 false = some s ∧
        Along (next calm) (ReadsBack frameOfTwo calm) s ([1, -1].map .fetch) :=
  round_trip calm (fun _ => rfl) keeping (fun _ => .ok []) false frameOfTwo 0 2 [1, -1] (by simp)

end RSQLCipher.RoundTrip
