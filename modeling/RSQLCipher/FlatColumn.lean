import RSQLCipher.ChunkCopy
import RSQLCipher.Column

namespace RSQLCipher.FlatColumn

open RSQLCipher.Values RSQLCipher.ColumnDataSource RSQLCipher.ColumnStorage RSQLCipher.Column
open RSQLCipher.ChunkContents RSQLCipher.ChunkCopy SqliteColumnDataSource DbColumnStorage DbColumn

/-- The type of a column after some cells, when chunks do not matter. -/
def runningType (src : SqliteColumnDataSource) (dt : DataType) (cells : List Cell) : DataType :=
  cells.foldl (fun dt c => if c = .null then dt else nextType src dt c) dt

def startType (incoming : DataType) : DataType :=
  if incoming = .bool then .unknown else incoming

/-- The type of the vector: the last running type, or the declared one. -/
def finalType (src : SqliteColumnDataSource) (incoming : DataType) (cells : List Cell) : DataType :=
  let dt := runningType src (startType incoming) cells
  if dt = .unknown then src.getDeclDataType else dt

/-- The flat column: every cell converted at the type in force, kept with that type. -/
def flatColumn (src : SqliteColumnDataSource) : DataType → List Cell → List (DataType × Elem)
  | _, [] => []
  | dt, c :: cells =>
    if c = .null then (dt, naElem dt) :: flatColumn src dt cells
    else (nextType src dt c, convert src (nextType src dt c) c) ::
      flatColumn src (nextType src dt c) cells

theorem flatColumn_append (src : SqliteColumnDataSource) (dt : DataType) (cells rest : List Cell) :
    flatColumn src dt (cells ++ rest) =
      flatColumn src dt cells ++ flatColumn src (runningType src dt cells) rest := by
  induction cells generalizing dt with
  | nil => rfl
  | cons c cells ih =>
    by_cases hc : c = .null
    · simp [flatColumn, runningType, hc, ih]
    · simp [flatColumn, runningType, hc, ih]

theorem length_flatColumn (src : SqliteColumnDataSource) (dt : DataType) (cells : List Cell) :
    (flatColumn src dt cells).length = cells.length := by
  induction cells generalizing dt with
  | nil => rfl
  | cons c cells ih =>
    simp only [flatColumn]
    split <;> simp [ih]

theorem runningType_append (src : SqliteColumnDataSource) (dt : DataType) (cells rest : List Cell) :
    runningType src dt (cells ++ rest) = runningType src (runningType src dt cells) rest :=
  List.foldl_append

theorem widens_nextType (src : SqliteColumnDataSource) {dt older : DataType} (c : Cell)
    (h : Widens dt older) : Widens (nextType src dt c) older := by
  unfold nextType
  split_ifs with hunknown h64 hreal
  · cases h with
    | refl => rw [hunknown]; exact .unknown
    | unknown => exact .unknown
    | int hint =>
      obtain hint | hint := hint
      · cases hint.symm.trans hunknown
      · cases hint.symm.trans hunknown
  · cases h with
    | refl => rw [h64.1]; exact .int (.inl rfl)
    | unknown => exact .unknown
    | int => exact .int (.inl rfl)
  · cases h with
    | refl => rw [hreal.1]; exact .int (.inr rfl)
    | unknown => exact .unknown
    | int => exact .int (.inr rfl)
  · exact h

theorem widens_runningType (src : SqliteColumnDataSource) {dt older : DataType} (cells : List Cell)
    (h : Widens dt older) : Widens (runningType src dt cells) older := by
  induction cells generalizing dt with
  | nil => exact h
  | cons c cells ih =>
    by_cases hc : c = .null
    · simpa [runningType, hc] using ih h
    · simpa [runningType, hc] using ih (widens_nextType src c h)

theorem widens_declared (src : SqliteColumnDataSource) {dt older : DataType} (h : Widens dt older) :
    Widens (if dt = .unknown then src.getDeclDataType else dt) older := by
  split
  · rename_i hunknown
    cases h with
    | refl => rw [hunknown]; exact .unknown
    | unknown => exact .unknown
    | int hint =>
      obtain hint | hint := hint
      · cases hint.symm.trans hunknown
      · cases hint.symm.trans hunknown
  · exact h

/-- A list of chunks holds a list of entries, each in a chunk of its type. -/
inductive Chunks : List DbColumnStorage → List (DataType × Elem) → Prop
  | nil : Chunks [] []
  | cons {s : DbColumnStorage} {es : List Elem} {chunks : List DbColumnStorage}
      {entries : List (DataType × Elem)} (h : Holds s es) (rest : Chunks chunks entries) :
      Chunks (s :: chunks) (es.map (s.dt, ·) ++ entries)

theorem chunks_snoc {chunks : List DbColumnStorage} {entries : List (DataType × Elem)}
    (h : Chunks chunks entries) {s : DbColumnStorage} {es : List Elem} (hs : Holds s es) :
    Chunks (chunks ++ [s]) (entries ++ es.map (s.dt, ·)) := by
  induction h with
  | nil => simpa using Chunks.cons hs .nil
  | cons h _ ih => simpa using Chunks.cons h ih

structure Represents (col : DbColumn) (src : SqliteColumnDataSource) (dt : DataType)
    (entries : List (DataType × Elem)) : Prop where
  source : col.source = src
  type : col.last.dt = dt
  contents : ∃ before es, Chunks col.older before ∧ Holds col.last es ∧
    entries = before ++ es.map (dt, ·)
  widens : ∀ s ∈ col.storage, Widens dt s.dt

theorem chunks_holds {chunks : List DbColumnStorage} {entries : List (DataType × Elem)}
    (h : Chunks chunks entries) (s : DbColumnStorage) (hs : s ∈ chunks) : ∃ es, Holds s es := by
  induction h with
  | nil => simp at hs
  | cons h _ ih =>
    cases hs with
    | head => exact ⟨_, h⟩
    | tail _ hs => exact ih hs

theorem exists_holds {col : DbColumn} {src : SqliteColumnDataSource} {dt : DataType}
    {entries : List (DataType × Elem)} (h : Represents col src dt entries) (s : DbColumnStorage)
    (hs : s ∈ col.storage) : ∃ es, Holds s es := by
  obtain ⟨before, es, hbefore, hes, -⟩ := h.contents
  exact chunks_holds (chunks_snoc hbefore hes) s hs

theorem represents_new (src : SqliteColumnDataSource) (incoming : DataType) (nMax : Int) :
    Represents (new src incoming nMax) src (startType incoming) [] where
  source := rfl
  type := rfl
  contents := ⟨[], [], .nil, holds_new _ _ _, rfl⟩
  widens s hs := by
    rw [List.mem_singleton.mp hs]
    exact .refl

theorem represents_this {col : DbColumn} {src : SqliteColumnDataSource} {dt : DataType}
    {before : List (DataType × Elem)} {es : List Elem}
    (h : Represents col src dt (before ++ es.map (dt, ·))) (hbefore : Chunks col.older before)
    (seen : DataType) {s : DbColumnStorage} (hdt : s.dt = dt) (e : Elem)
    (hholds : Holds s (es ++ [e])) :
    Represents (col.receive seen (.this s)) src dt (before ++ es.map (dt, ·) ++ [(dt, e)]) := by
  refine ⟨h.source, hdt, ⟨before, es ++ [e], hbefore, hholds, by simp⟩, ?_⟩
  intro t ht
  obtain ht | ht := List.mem_append.mp ht
  · exact h.widens t (List.mem_append_left _ ht)
  · rw [List.mem_singleton.mp ht]
    change Widens dt s.dt
    rw [hdt]
    exact .refl

theorem represents_other {col : DbColumn} {src : SqliteColumnDataSource} {dt : DataType}
    {entries : List (DataType × Elem)} (h : Represents col src dt entries) (c : Cell)
    {s : DbColumnStorage} (hdt : s.dt = nextType src dt c) (e : Elem) (hholds : Holds s [e]) :
    Represents (col.receive (col.source.getDataType c) (.other s)) src (nextType src dt c)
      (entries ++ [(nextType src dt c, e)]) := by
  obtain ⟨before, es, hbefore, hes, rfl⟩ := h.contents
  have hsnoc := chunks_snoc hbefore hes
  rw [h.type] at hsnoc
  refine ⟨h.source, hdt, ⟨_, [e], hsnoc, hholds, rfl⟩, ?_⟩
  intro t ht
  obtain ht | ht := List.mem_append.mp ht
  · exact widens_nextType src c (h.widens t ht)
  · rw [List.mem_singleton.mp ht]
    change Widens (nextType src dt c) s.dt
    rw [hdt]
    exact .refl

theorem setColValue_null {col : DbColumn} {src : SqliteColumnDataSource} {dt : DataType}
    {entries : List (DataType × Elem)} (h : Represents col src dt entries) :
    ∃ col', col.setColValue .null = .ok col' ∧
      Represents col' src dt (entries ++ [(dt, naElem dt)]) ∧
      col'.dataTypesSeen = col.dataTypesSeen.insert (src.getDataType .null) := by
  obtain ⟨before, es, hbefore, hes, rfl⟩ := h.contents
  obtain ⟨s', hs', hdt, hholds⟩ := appendNull_spec hes
  rw [h.type] at hdt hholds
  refine ⟨col.receive (col.source.getDataType .null) (.this s'), ?_,
    represents_this h hbefore _ hdt _ hholds, by rw [h.source]; rfl⟩
  simp only [setColValue, appendCol, isNull, beq_self_eq_true, if_true, hs']
  rfl

theorem setColValue_data {col : DbColumn} {src : SqliteColumnDataSource} {dt : DataType}
    {entries : List (DataType × Elem)} (h : Represents col src dt entries) (c : Cell)
    (hc : c ≠ .null) :
    ∃ col', col.setColValue c = .ok col' ∧
      Represents col' src (nextType src dt c)
        (entries ++ [(nextType src dt c, convert src (nextType src dt c) c)]) ∧
      col'.dataTypesSeen = col.dataTypesSeen.insert (src.getDataType c) := by
  obtain ⟨before, es, hbefore, hes, rfl⟩ := h.contents
  have hset : ∀ next, appendData src c 3 col.last = .ok next →
      col.setColValue c = .ok (col.receive (col.source.getDataType c) next) := by
    intro next hnext
    have hnull : isNull c = false := by simp [isNull, hc]
    simp only [setColValue, appendCol, hnull, h.source, Bool.false_eq_true, if_false, hnext]
    rfl
  obtain ⟨s', hs', hkeep, hdt, hholds⟩ | ⟨s', hs', hdt, hholds⟩ := appendData_spec hes src c hc
  · rw [h.type] at hkeep hdt hholds
    rw [← hkeep]
    exact ⟨_, hset _ hs', represents_this h hbefore _ hdt _ hholds, by rw [h.source]; rfl⟩
  · rw [h.type] at hdt hholds
    exact ⟨_, hset _ hs', represents_other h c hdt _ hholds, by rw [h.source]; rfl⟩

theorem setColValue_spec {col : DbColumn} {src : SqliteColumnDataSource} {dt : DataType}
    {entries : List (DataType × Elem)} (h : Represents col src dt entries) (c : Cell) :
    ∃ col', col.setColValue c = .ok col' ∧
      Represents col' src (runningType src dt [c]) (entries ++ flatColumn src dt [c]) ∧
      col'.dataTypesSeen = col.dataTypesSeen.insert (src.getDataType c) := by
  by_cases hc : c = .null
  · subst hc
    exact setColValue_null h
  · simpa [runningType, flatColumn, hc] using setColValue_data h c hc

/-- Any number of cells: appending never fails, and the chunks represent the flat
column. -/
theorem setColValues_spec {col : DbColumn} {src : SqliteColumnDataSource} {dt : DataType}
    {entries : List (DataType × Elem)} (h : Represents col src dt entries) (cells : List Cell) :
    ∃ col', col.setColValues cells = .ok col' ∧
      Represents col' src (runningType src dt cells) (entries ++ flatColumn src dt cells) ∧
      ∀ seen, seen ∈ col'.dataTypesSeen ↔
        seen ∈ col.dataTypesSeen ∨ ∃ c ∈ cells, src.getDataType c = seen := by
  induction cells generalizing col dt entries with
  | nil => exact ⟨col, rfl, by simpa [flatColumn, runningType] using h, by simp⟩
  | cons c cells ih =>
    obtain ⟨col₁, hset, hrep, hseen⟩ := setColValue_spec h c
    obtain ⟨col₂, hsets, hrep', hseen'⟩ := ih hrep
    refine ⟨col₂, ?_, ?_, ?_⟩
    · simp only [setColValues, List.foldlM_cons, hset]
      exact hsets
    · have hflat := flatColumn_append src dt [c] cells
      have htype := runningType_append src dt [c] cells
      rw [List.singleton_append] at hflat htype
      rwa [hflat, htype, ← List.append_assoc]
    · intro seen
      rw [hseen', hseen, List.mem_insert_iff, List.exists_mem_cons_iff, eq_comm (a := seen)]
      tauto

theorem getType_eq {col : DbColumn} {src : SqliteColumnDataSource} {dt : DataType}
    {entries : List (DataType × Elem)} (h : Represents col src dt entries) :
    col.getType = if dt = .unknown then src.getDeclDataType else dt := by
  simp only [getType, DbColumnStorage.getDataType, h.type, h.source]

theorem getDeclDataType_ne_unknown (src : SqliteColumnDataSource) :
    src.getDeclDataType ≠ .unknown := by
  unfold getDeclDataType datatypeFromDecltype
  split
  · simp
  · split_ifs
    · simp
    · simp
    · simp
    · split <;> simp

theorem copyChunks_spec {chunks : List DbColumnStorage} {entries : List (DataType × Elem)}
    (h : Chunks chunks entries) {wide : DataType} (hwide : wide ≠ .unknown)
    (hw : ∀ s ∈ chunks, Widens wide s.dt) (x : Sexp) (pos : Nat) (hpos : pos ≤ x.length) :
    ∃ y, copyChunks wide chunks x pos = .ok y ∧
      Written x y pos ((entries.map fun e => widen e.1 wide e.2).take (x.length - pos)) := by
  induction h generalizing x pos with
  | nil => exact ⟨x, rfl, by simpa using written_nil x pos hpos⟩
  | @cons s es chunks entries hs _ ih =>
    obtain ⟨y, m, hy, hm, hwritten⟩ := copyTo_spec hs (hw s (by simp)) hwide x pos hpos
    have hlen := length_written hwritten
    have htake : ((widened s wide es).take m).length = m := by
      simp only [widened, List.length_take, List.length_map]
      omega
    obtain ⟨z, hz, hwritten'⟩ := ih (fun t ht => hw t (by simp [ht])) y (pos + m) (by omega)
    refine ⟨z, ?_, ?_⟩
    · simp only [copyChunks, hy, bind, Except.bind]
      exact hz
    · have hnext : Written y z (pos + ((widened s wide es).take m).length)
          ((entries.map fun e => widen e.1 wide e.2).take (y.length - (pos + m))) := by rwa [htake]
      have hjoin := written_append hwritten hnext
      have hsplit : ((es.map (s.dt, ·) ++ entries).map fun e => widen e.1 wide e.2) =
          widened s wide es ++ entries.map fun e => widen e.1 wide e.2 := by
        simp [widened, Function.comp_def]
      rw [hsplit, List.take_append]
      have h1 : (widened s wide es).take (x.length - pos) = (widened s wide es).take m := by
        rw [hm]
        simp only [widened, List.take_eq_take_iff, List.length_map]
        omega
      have h2 : x.length - pos - (widened s wide es).length = y.length - (pos + m) := by
        simp only [widened, List.length_map]
        omega
      rwa [h1, h2]

def flatVector (src : SqliteColumnDataSource) (incoming : DataType) (cells : List Cell) : Sexp :=
  { allocate cells.length (finalType src incoming cells) with
    elems := (flatColumn src (startType incoming) cells).map fun e =>
      widen e.1 (finalType src incoming cells) e.2 }

theorem toSexp_spec {col : DbColumn} {src : SqliteColumnDataSource} {dt : DataType}
    {entries : List (DataType × Elem)} (h : Represents col src dt entries) (n : Nat)
    (hn : n ≤ entries.length) :
    let wide := if dt = .unknown then src.getDeclDataType else dt
    (col.finalize n).toSexp = .ok { allocate n wide with
      elems := (entries.map fun e => widen e.1 wide e.2).take n } := by
  intro wide
  have hwide : wide ≠ .unknown := by
    simp only [wide]
    split
    · exact getDeclDataType_ne_unknown src
    · rename_i hdt
      exact hdt
  have hf : Represents (col.finalize n) src dt entries := ⟨h.source, h.type, h.contents, h.widens⟩
  have htype : (col.finalize n).getType = wide := getType_eq hf
  obtain ⟨before, es, hbefore, hes, rfl⟩ := h.contents
  have hchunks := chunks_snoc hbefore hes
  rw [h.type] at hchunks
  have hlen : (allocate n wide).length = n := by simp [allocate, Sexp.length, hwide]
  obtain ⟨y, hy, hle, rfl⟩ := copyChunks_spec hchunks hwide
    (fun s hs => widens_declared src (h.widens s hs)) (allocate n wide) 0 (Nat.zero_le _)
  rw [toSexp, htype]
  refine hy.trans ?_
  have htake : (((before ++ es.map (dt, ·)).map fun e => widen e.1 wide e.2).take n).length = n := by
    rw [List.length_take, List.length_map]
    omega
  rw [hlen, Nat.sub_zero, htake]
  have hdrop : (allocate n wide).elems.drop (0 + n) = [] :=
    List.drop_eq_nil_of_le (by rw [← Sexp.length, hlen]; omega)
  rw [hdrop]
  simp

theorem flatColumn_getElem (src : SqliteColumnDataSource) (dt : DataType) (cells : List Cell)
    (k : Nat) (c : Cell) (hk : cells[k]? = some c) :
    (flatColumn src dt cells)[k]? = some
      (runningType src dt (cells.take (k + 1)),
        if c = .null then naElem (runningType src dt (cells.take (k + 1)))
        else convert src (runningType src dt (cells.take (k + 1))) c) := by
  induction cells generalizing dt k with
  | nil => simp at hk
  | cons d cells ih =>
    cases k with
    | zero =>
      cases hk
      by_cases hc : c = .null <;> simp [flatColumn, runningType, hc]
    | succ k =>
      have hnext := ih (if d = .null then dt else nextType src dt d) k (by simpa using hk)
      by_cases hd : d = .null
      · simpa [flatColumn, runningType, hd] using hnext
      · simpa [flatColumn, runningType, hd] using hnext

theorem widens_finalType (src : SqliteColumnDataSource) (incoming : DataType) (cells : List Cell)
    (k : Nat) : Widens (finalType src incoming cells)
      (runningType src (startType incoming) (cells.take k)) := by
  have hsplit : runningType src (startType incoming) cells =
      runningType src (runningType src (startType incoming) (cells.take k)) (cells.drop k) := by
    rw [← runningType_append, List.take_append_drop]
  unfold finalType
  rw [hsplit]
  exact widens_declared src (widens_runningType src _ .refl)

theorem flatVector_getElem (src : SqliteColumnDataSource) (incoming : DataType)
    (cells : List Cell) (k : Nat) (c : Cell) (hk : cells[k]? = some c) :
    (flatVector src incoming cells).elems[k]? = some
      (if c = .null then naElem (finalType src incoming cells)
      else widen (runningType src (startType incoming) (cells.take (k + 1)))
        (finalType src incoming cells)
        (convert src (runningType src (startType incoming) (cells.take (k + 1))) c)) := by
  simp only [flatVector, List.getElem?_map, flatColumn_getElem src _ cells k c hk, Option.map_some]
  split
  · rw [widen_naElem _ _ (widens_finalType src incoming cells (k + 1))]
  · rfl

theorem batch_spec (src : SqliteColumnDataSource) (incoming : DataType) (nMax : Int)
    (cells : List Cell) :
    ∃ col, (DbColumn.new src incoming nMax).setColValues cells = .ok col ∧
      Represents col src (runningType src (startType incoming) cells)
        (flatColumn src (startType incoming) cells) ∧
      (∀ seen, seen ∈ col.dataTypesSeen ↔ ∃ c ∈ cells, src.getDataType c = seen) ∧
      col.getType = finalType src incoming cells ∧
      (col.finalize cells.length).toSexp = .ok (flatVector src incoming cells) := by
  obtain ⟨col, hcol, hrep, hseen⟩ := setColValues_spec (represents_new src incoming nMax) cells
  rw [List.nil_append] at hrep
  have hlen := length_flatColumn src (startType incoming) cells
  refine ⟨col, hcol, hrep, ?_, getType_eq hrep, ?_⟩
  · intro seen
    rw [hseen]
    simp [DbColumn.new]
  · rw [toSexp_spec hrep cells.length hlen.ge, List.take_of_length_le (by simp [hlen])]
    rfl

/-- Chunked storage is a flat column: whatever the incoming type, the capacity and the
cells, the vector has the final type, and each entry is the missing value or the cell
converted at the type in force and widened. Accesses outside a chunk would be faults,
and there are none. -/
theorem column_refines_flat (src : SqliteColumnDataSource) (incoming : DataType) (nMax : Int)
    (cells : List Cell) :
    ∃ col x, (DbColumn.new src incoming nMax).setColValues cells = .ok col ∧
      (col.finalize cells.length).toSexp = .ok x ∧ x = flatVector src incoming cells ∧
      col.getType = finalType src incoming cells ∧
      x.type = sexptypeFromDatatype (finalType src incoming cells) ∧
      x.cls = classFromDatatype (finalType src incoming cells) ∧
      x.length = cells.length ∧
      (∀ k c, cells[k]? = some c → x.elems[k]? = some
        (if c = .null then naElem (finalType src incoming cells)
        else widen (runningType src (startType incoming) (cells.take (k + 1)))
          (finalType src incoming cells)
          (convert src (runningType src (startType incoming) (cells.take (k + 1))) c))) ∧
      ∀ s ∈ col.storage, s.dt = finalType src incoming cells ∨
        (s.dt = .int ∧
          (finalType src incoming cells = .int64 ∨ finalType src incoming cells = .real)) ∨
        (s.dt = .unknown ∧ s.getCapacity = 0) := by
  obtain ⟨col, hcol, hrep, -, htype, hx⟩ := batch_spec src incoming nMax cells
  refine ⟨col, _, hcol, hx, rfl, htype, rfl, rfl, ?_, flatVector_getElem src incoming cells, ?_⟩
  · simp [flatVector, Sexp.length, length_flatColumn]
  · intro s hs
    obtain ⟨es, hes⟩ := exists_holds hrep s hs
    have hw := widens_declared src (hrep.widens s hs)
    generalize hdt : s.dt = dt at hw
    cases hw with
    | refl => exact .inl rfl
    | unknown => exact .inr (.inr ⟨rfl, hes.untyped hdt⟩)
    | int hwide => exact .inr (.inl ⟨rfl, hwide⟩)

end RSQLCipher.FlatColumn
