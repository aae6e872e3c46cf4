import RSQLCipher.Metadata

namespace RSQLCipher.ExtendedTypes

open RSQLCipher.Library RSQLCipher.Values RSQLCipher.ColumnDataSource RSQLCipher.ColumnStorage
open RSQLCipher.Statement RSQLCipher.Params RSQLCipher.DataFrame RSQLCipher.ResultImpl
open RSQLCipher.ChunkContents RSQLCipher.FlatColumn RSQLCipher.FrameContents RSQLCipher.Stepping
open RSQLCipher.FetchedValues RSQLCipher.Fetching RSQLCipher.Binding RSQLCipher.Sessions
open RSQLCipher.Batching RSQLCipher.Metadata SqliteResult SqliteColumnDataSource DbColumnStorage

variable {σ : Type}

/-- The declarations of dates and times, in letters of any case, and the classes of their
columns. -/
inductive DeclaredAs (decl : Bytes) : RClass → Prop
  | date (h : iequals decl "date" = true) : DeclaredAs decl .date
  | datetime (h : iequals decl "datetime" = true) : DeclaredAs decl .posixct
  | timestamp (h : iequals decl "timestamp" = true) : DeclaredAs decl .posixct
  | time (h : iequals decl "time" = true) : DeclaredAs decl .hms

/-- The element is the number, and not `NA`. -/
def IsNumber (e : Elem) (v : Int64) : Prop :=
  ∃ x, e = .ofDouble x ∧ x.toRat = some (v.toInt : ℚ) ∧ rIsNA x = false

/-- Days are read as 32-bit integers, and seconds are not. -/
def InRange (cls : RClass) (v : Int64) : Prop := cls = .date → -2 ^ 31 ≤ v.toInt ∧ v.toInt < 2 ^ 31

/-- A fetch that returns has, for every integer up to 2^53 in a column of dates or times, an
element in its row of a vector of the class, and the element is a good one for the integer. -/
def IntegersRead (good : RClass → Int64 → Elem → Prop) (env : Environment) (r : SqliteResult σ) :
    Call → Prop
  | .fetch nMax => Ends (fun out _ => ∀ (j : ℕ) name decl cls,
      r.handle.stmt.columns[j]? = some (name, some decl) → DeclaredAs decl cls →
      ∀ (k : ℕ) row v, (takeMax nMax r.pending)[k]? = some row →
        sqlite3Column row j = .integer v → v.toInt.natAbs ≤ 2 ^ 53 →
        ∃ x e, out.columns[j]? = some x ∧ x.cls = cls ∧ x.elems[k]? = some e ∧ good cls v e)
    (fun _ _ => True) (fetch env nMax r)
  | _ => True

section Cells

theorem isNumber_ofInt {i : Int} (hi : i.natAbs ≤ 2 ^ 53) (v : Int64) :
    IsNumber (.ofDouble (Binary64.ofInt i)) v ↔ i = v.toInt := by
  have hexact := Binary64.toRat_ofInt i hi
  constructor
  · rintro ⟨x, hx, hrat, -⟩
    have hbits : x = Binary64.ofInt i := by
      cases x
      exact congrArg Binary64.mk (Elem.word.inj hx).symm
    rw [hbits, hexact, Option.some.injEq] at hrat
    exact_mod_cast hrat
  · rintro rfl
    refine ⟨_, rfl, hexact, ?_⟩
    have hnan := Binary64.isNaN_ofInt v.toInt (hi.trans (by decide))
    simp [rIsNA, hnan]

/-- The low 32 bits of a number are the number if it has no others. -/
theorem toInt32_eq_iff (v : Int64) :
    v.toInt32.toInt = v.toInt ↔ -2 ^ 31 ≤ v.toInt ∧ v.toInt < 2 ^ 31 := by
  constructor
  · intro h
    rw [← h]
    exact ⟨v.toInt32.le_toInt, v.toInt32.toInt_lt⟩
  · rintro ⟨hlo, hhi⟩
    exact toInt_toInt32 v ((needs64Bit_iff v).mpr ⟨hlo, by omega⟩)

theorem natAbs_toInt32 (v : Int32) : v.toInt.natAbs ≤ 2 ^ 53 := by
  have hlo := v.le_toInt
  have hhi := v.toInt_lt
  omega

variable (src : SqliteColumnDataSource) (v : Int64)

theorem convert_date : convert src .date (.integer v) = .ofDouble (Binary64.ofInt v.toInt32.toInt) := by
  simp [convert, fetchElem, fetchDate, fetchParsed, ColumnAccess.columnInt]

theorem convert_datetime :
    convert src .datetime (.integer v) = .ofDouble (Binary64.ofInt v.toInt) := by
  simp [convert, fetchElem, fetchDatetimeLocal, fetchParsed]

theorem convert_time : convert src .time (.integer v) = .ofDouble (Binary64.ofInt v.toInt) := by
  simp [convert, fetchElem, fetchTime, fetchParsed]

end Cells

/-- A column that is read as one of dates or times, of some class. -/
structure Temporal (src : SqliteColumnDataSource) (cls : RClass) : Prop where
  extended : src.withAltTypes = true
  kind : src.getDeclDataType = .date ∨ src.getDeclDataType = .datetime ∨ src.getDeclDataType = .time
  cls : classFromDatatype src.getDeclDataType = cls

section Columns

theorem iequals_other {decl : Bytes} {a b : String} (h : iequals decl a = true)
    (hne : (a.toList.map fun c => c.val.toUInt8) ≠ b.toList.map fun c => c.val.toUInt8) :
    iequals decl b = false := by
  rw [iequals, beq_iff_eq] at h
  rw [iequals, h]
  exact beq_false_of_ne hne

theorem temporal_of_declared {src : SqliteColumnDataSource} {decl : Bytes} {cls : RClass}
    (hext : src.withAltTypes = true) (hdecl : src.decltype = some decl) (h : DeclaredAs decl cls) :
    Temporal src cls := by
  have hkind : src.getDeclDataType = datatypeFromDecltype (some decl) true := by
    rw [getDeclDataType, hdecl, hext]
  cases h with
  | date h =>
    have hdate : src.getDeclDataType = .date := by
      simp [hkind, datatypeFromDecltype, h, iequals_other h (b := "datetime") (by decide),
        iequals_other h (b := "timestamp") (by decide)]
    exact ⟨hext, .inl hdate, by rw [hdate]; rfl⟩
  | datetime h =>
    have hdatetime : src.getDeclDataType = .datetime := by simp [hkind, datatypeFromDecltype, h]
    exact ⟨hext, .inr (.inl hdatetime), by rw [hdatetime]; rfl⟩
  | timestamp h =>
    have hdatetime : src.getDeclDataType = .datetime := by simp [hkind, datatypeFromDecltype, h]
    exact ⟨hext, .inr (.inl hdatetime), by rw [hdatetime]; rfl⟩
  | time h =>
    have htime : src.getDeclDataType = .time := by
      simp [hkind, datatypeFromDecltype, h, iequals_other h (b := "datetime") (by decide),
        iequals_other h (b := "timestamp") (by decide), iequals_other h (b := "date") (by decide)]
    exact ⟨hext, .inr (.inr htime), by rw [htime]; rfl⟩

variable {src : SqliteColumnDataSource} {cls : RClass}

theorem getDataType_temporal (h : Temporal src cls) (c : Cell) :
    src.getDataType c = src.getDeclDataType := by
  have hkind : (src.getDeclDataType == .date || src.getDeclDataType == .datetime ||
      src.getDeclDataType == .time) = true := by
    obtain hkind | hkind | hkind := h.kind <;> rw [hkind] <;> rfl
  simp [SqliteColumnDataSource.getDataType, h.extended, hkind]

theorem ne_bool_temporal (h : Temporal src cls) : src.getDeclDataType ≠ .bool := by
  obtain hkind | hkind | hkind := h.kind <;> simp [hkind]

theorem finalType_temporal (h : Temporal src cls) {incoming : DataType}
    (hincoming : incoming = .unknown ∨ incoming = src.getDeclDataType) (cells : List Cell) :
    finalType src incoming cells = src.getDeclDataType :=
  finalType_oneType rfl (ne_bool_temporal h) (fun c _ _ => getDataType_temporal h c) hincoming

/-- An integer is read as it is, or by its low 32 bits. -/
theorem element_temporal (h : Temporal src cls) {incoming : DataType}
    (hincoming : incoming = .unknown ∨ incoming = src.getDeclDataType) {cells : List Cell} {k : ℕ}
    {v : Int64} (hk : cells[k]? = some (.integer v)) (hv : v.toInt.natAbs ≤ 2 ^ 53) :
    ∃ e, (flatVector src incoming cells).elems[k]? = some e ∧ (IsNumber e v ↔ InRange cls v) := by
  have helem := flatVector_oneType rfl (ne_bool_temporal h) (fun c _ _ => getDataType_temporal h c)
    hincoming k _ hk
  rw [if_neg (by simp)] at helem
  refine ⟨_, helem, ?_⟩
  rw [InRange, ← h.cls]
  obtain hkind | hkind | hkind := h.kind
  · rw [hkind, convert_date, isNumber_ofInt (natAbs_toInt32 v.toInt32), toInt32_eq_iff]
    exact ⟨fun hrange _ => hrange, fun hrange => hrange rfl⟩
  · rw [hkind, convert_datetime, isNumber_ofInt hv]
    exact iff_of_true rfl fun hcls => by cases hcls
  · rw [hkind, convert_time, isNumber_ofInt hv]
    exact iff_of_true rfl fun hcls => by cases hcls

end Columns

section Calls

variable {env : Environment} {r r' : SqliteResult σ}

/-- The results have the same columns, of the same types. -/
structure SameColumns (r r' : SqliteResult σ) : Prop where
  stmt : r'.handle.stmt = r.handle.stmt
  types : r'.types = r.types
  withAltTypes : r'.withAltTypes = r.withAltTypes

theorem sameColumns_dbBind (env : Environment) (params : List Param) (r : SqliteResult σ)
    (hs : Sized r) : Ends (fun _ r' => SameColumns r r') (fun _ r' => SameColumns r r')
      (dbBind env params r) := by
  by_cases ha : Accepts r params
  · rw [dbBind_accepted env params r ha]
    by_cases hcount : groupCount params = 0
    · have hrow : bindRow env (withParams r params) = .ok false (withParams r params) :=
        bindRow_last env _ (by simp [withParams, hcount])
      rw [bind_ok hrow]
      exact ⟨rfl, rfl, rfl⟩
    · have hsized := sized_withParams hs ha
      refine ends_bind (ends_mono (bindRow_spec env (withParams r params) hsized
        (Nat.pos_of_ne_zero hcount)) (fun _ _ h => h) ?_) ?_
      · rintro - r' ⟨-, bindings, k, -, rfl⟩
        exact ⟨rfl, rfl, rfl⟩
      · rintro - r' ⟨rfl, b, k, hb, rfl⟩
        have hsized' : Sized (withBindings { withParams r params with
            handle := (withParams r params).handle.sqlite3Reset } b k) :=
          ⟨(length_groupBindings hb).trans ha.2.2, hsized.params⟩
        refine ends_mono (afterBind_spec env _ hsized' rfl) ?_ ?_
        · rintro - r' ⟨hkept, -⟩
          exact ⟨hkept.stmt, hkept.types, hkept.withAltTypes⟩
        · rintro - r' ⟨hkept, -⟩
          exact ⟨hkept.stmt, hkept.types, hkept.withAltTypes⟩
  · obtain ⟨e, he⟩ := dbBind_refused env params r ha
    rw [he]
    exact ⟨rfl, rfl, rfl⟩

/-- A result of which each column of dates or times has no type yet, or its own. -/
structure Typed (env : Environment) (r : SqliteResult σ) : Prop where
  sized : Sized r
  extended : r.withAltTypes = true
  length : r.types.length = r.handle.stmt.columns.length
  types : ∀ (j : ℕ) dt cls, r.types[j]? = some dt → Temporal (r.factory env j) cls →
    dt = .unknown ∨ dt = (r.factory env j).getDeclDataType

theorem factory_sameColumns (h : SameColumns r r') (j : ℕ) : r'.factory env j = r.factory env j := by
  rw [factory, factory, h.stmt, h.withAltTypes]

theorem typed_sameColumns (h : Typed env r) (hsame : SameColumns r r') (hs : Sized r') :
    Typed env r' := by
  refine ⟨hs, hsame.withAltTypes.trans h.extended, ?_, ?_⟩
  · rw [hsame.types, hsame.stmt, h.length]
  · intro j dt cls hdt htemporal
    rw [hsame.types] at hdt
    rw [factory_sameColumns hsame] at htemporal ⊢
    exact h.types j dt cls hdt htemporal

/-- Rows that are read fix the types of these columns to their own. -/
theorem typed_fixed (h : Typed env r) (rows : List Row) :
    Typed env (retyped r (fixedTypes (r.factory env) rows 0 r.types)) := by
  refine ⟨⟨h.sized.bindings, h.sized.params⟩, h.extended, ?_, ?_⟩
  · show (fixedTypes (r.factory env) rows 0 r.types).length = r.handle.stmt.columns.length
    rw [length_fixedTypes, h.length]
  · intro j dt cls hdt htemporal
    replace hdt : (fixedTypes (r.factory env) rows 0 r.types)[j]? = some dt := hdt
    rw [fixedTypes_getElem?, Option.map_eq_some_iff] at hdt
    obtain ⟨incoming, hincoming, rfl⟩ := hdt
    rw [Nat.zero_add]
    exact .inr (finalType_temporal htemporal (h.types j incoming cls hincoming htemporal) _)

theorem typed_initial (env : Environment) (stmt : Stmt σ) (db : σ) (totalChanges : ℕ) :
    Typed env (initial stmt db totalChanges true) where
  sized := sized_initial stmt db totalChanges true
  extended := rfl
  length := List.length_replicate
  types j dt cls hdt _ := by
    left
    replace hdt : (List.replicate stmt.columns.length DataType.unknown)[j]? = some dt := hdt
    rw [List.getElem?_replicate] at hdt
    split at hdt
    · exact (Option.some.inj hdt).symm
    · cases hdt

theorem typed_create {stmt : Stmt σ} {db : σ} {totalChanges : ℕ}
    (h : create env (initial stmt db totalChanges true) = .ok () r) : Typed env r := by
  have hinitial := typed_initial env stmt db totalChanges
  by_cases h0 : stmt.parameters = []
  · have hspec := afterBind_spec env _ hinitial.sized rfl
    rw [← create_query env db totalChanges true h0, h] at hspec
    obtain ⟨hkept, hready⟩ := hspec
    exact typed_sameColumns hinitial ⟨hkept.stmt, hkept.types, hkept.withAltTypes⟩ hready.sized
  · rw [create_params env _ (by simpa [nparams, initial, Handle.prepared] using h0)] at h
    cases h
    exact hinitial

theorem typed_delivered {nMax : Int} {s : SqliteResult σ} {rows : List Row} (h : Typed env r)
    (hdelivered : Delivered nMax r s rows) :
    Typed env (retyped s (fixedTypes (r.factory env) rows 0 r.types)) := by
  have hkept := hdelivered.ahead.kept
  have hsame : SameColumns r s := ⟨hkept.stmt, hkept.types, hkept.withAltTypes⟩
  have hsized : Sized s := sized_kept (r := { r with nrows := r.nrows + rows.length })
    ⟨h.sized.bindings, h.sized.params⟩ hkept
  have hfixed := typed_fixed (typed_sameColumns h hsame hsized) rows
  have hfactory : s.factory env = r.factory env := by
    funext j
    exact factory_sameColumns hsame j
  rwa [hsame.types, hfactory] at hfixed

theorem typed_fetch (h : Typed env r) (nMax : Int) : Typed env (leaves (fetch env nMax r)) := by
  cases hready : r.ready with
  | false =>
    rw [fetch_notReady env nMax r hready]
    exact h
  | true =>
    by_cases hmax : nMax = 0
    · obtain ⟨out, rows, hpeek, -⟩ := peekFirstRow_fixes env r
      rw [hmax, fetch_none env r hready, hpeek]
      exact typed_fixed h rows
    · have hspec := fetch_spec env nMax hmax r h.sized hready
      have hfixes := fetchRows_fixes env nMax hmax r h.sized
      rw [← fetch_rows env nMax hmax r hready] at hfixes
      cases hrun : fetch env nMax r with
      | ok out r' =>
        rw [hrun] at hspec hfixes
        obtain ⟨s, hdelivered, rfl⟩ := hfixes
        exact typed_delivered h hdelivered
      | error e r' =>
        rw [hrun] at hspec
        obtain ⟨m, hkept⟩ := hspec.kept
        exact typed_sameColumns h ⟨hkept.stmt, hkept.types, hkept.withAltTypes⟩
          (sized_lost h.sized hspec)

/-- An integer of a row that is returned stands in its row of the vector of its column. -/
theorem integer_returned (h : Typed env r) {nMax : Int} {out : Fetched}
    (hreturned : Returned env nMax r r' out) {j k : ℕ} {name : String} {decl : Bytes} {cls : RClass}
    (hcolumn : r.handle.stmt.columns[j]? = some (name, some decl)) (hdecl : DeclaredAs decl cls)
    {row : Row} {v : Int64} (hrow : (takeMax nMax r.pending)[k]? = some row)
    (hcell : sqlite3Column row j = .integer v) (hv : v.toInt.natAbs ≤ 2 ^ 53) :
    ∃ x e, out.columns[j]? = some x ∧ x.cls = cls ∧ x.elems[k]? = some e ∧
      (IsNumber e v ↔ InRange cls v) := by
  obtain ⟨s, types, hdelivered, -⟩ := hreturned.delivered
  have htemporal : Temporal (r.factory env j) cls := by
    refine temporal_of_declared h.extended ?_ hdecl
    simp [factory, hcolumn]
  have hj : j < r.types.length := by
    rw [h.length]
    exact (List.getElem?_eq_some_iff.mp hcolumn).1
  have hdt := List.getElem?_eq_getElem hj
  have hincoming := h.types j _ cls hdt htemporal
  have hk : (cellsOf out.received j)[k]? = some (.integer v) := by
    rw [cellsOf, List.getElem?_map, hdelivered.rows, hrow, Option.map_some, hcell]
  obtain ⟨e, he, hiff⟩ := element_temporal htemporal hincoming hk hv
  have hvector := vectors_getElem? (r.factory env) out.received out.nrow 0 r.types j
  rw [hdt, Option.map_some, Nat.zero_add, ← hreturned.columns] at hvector
  refine ⟨_, e, hvector, ?_, ?_, hiff⟩
  · show classFromDatatype (finalType (r.factory env j) r.types[j] (cellsOf out.received j)) = cls
    rw [finalType_temporal htemporal hincoming, htemporal.cls]
  · show ((flatVector (r.factory env j) r.types[j] (cellsOf out.received j)).elems.take
      out.nrow)[k]? = some e
    rw [List.getElem?_take_of_lt, he]
    rw [hreturned.nrow, hdelivered.rows]
    exact (List.getElem?_eq_some_iff.mp hrow).1

/-- One call reads the integers as the numbers, or their low bits. -/
theorem integersRead_typed (h : Typed env r) (c : Call) :
    IntegersRead (fun cls v e => IsNumber e v ↔ InRange cls v) env r c := by
  cases c with
  | bind params => trivial
  | getColumnInfo => trivial
  | fetch nMax =>
    cases hready : r.ready with
    | false =>
      rw [IntegersRead, fetch_notReady env nMax r hready]
      trivial
    | true =>
      by_cases hmax : nMax = 0
      · obtain ⟨out, types, hpeek, -⟩ := peekFirstRow_spec env r
        rw [IntegersRead, hmax, fetch_none env r hready, hpeek]
        intro j name decl cls _ _ k row v hrow
        cases hrow
      · refine ends_mono (fetch_spec env nMax hmax r h.sized hready) ?_ fun _ _ _ => trivial
        intro out r' hreturned j name decl cls hcolumn hdecl k row v hrow hcell hv
        exact integer_returned h hreturned hcolumn hdecl hrow hcell hv

theorem typed_afterCall (h : Typed env r) (c : Call) : Typed env (afterCall env r c) := by
  cases c with
  | bind params =>
    have hsame := sameColumns_dbBind env params r h.sized
    have hsized := sized_dbBind env params r h.sized
    rw [afterCall]
    cases hrun : dbBind env params r with
    | ok u r' =>
      rw [hrun] at hsame hsized
      exact typed_sameColumns h hsame hsized
    | error e r' =>
      rw [hrun] at hsame hsized
      exact typed_sameColumns h hsame hsized
  | fetch nMax => exact typed_fetch h nMax
  | getColumnInfo =>
    obtain ⟨out, rows, hinfo⟩ := getColumnInfo_fixes env r
    rw [afterCall, hinfo]
    exact typed_fixed h rows

end Calls

/-- In every run with extended types, an integer up to 2^53 in a column of dates or times comes
back as the number, except one in a column of dates that does not fit 32 bits. -/
theorem numbers_exact_iff (env : Environment) (stmt : Stmt σ) (db : σ) (totalChanges : ℕ)
    (r : SqliteResult σ) (hcreate : create env (initial stmt db totalChanges true) = .ok () r)
    (calls : List Call) :
    Along (afterCall env) (IntegersRead (fun cls v e => IsNumber e v ↔ InRange cls v) env) r
      calls := by
  have hkeep : ∀ (s : SqliteResult σ) c, Typed env s → True → Typed env (afterCall env s c) :=
    fun _ c h _ => typed_afterCall h c
  exact along_of_invariant hkeep (fun _ c h _ => integersRead_typed h c) (typed_create hcreate) calls
    (along_of_forall _ r calls fun _ (_ : _ ∈ calls) => trivial)

/-- A column of dates and one of times, with 2^31 days and 2^31 seconds in the second row. -/
def longAgo : Stmt Unit where
  columns := [("d", some [68, 97, 116, 69]), ("t", some [84, 73, 77, 69])]
  parameters := []
  run _ _ :=
    { rows := [[.integer 1, .null], [.integer 2147483648, .integer 2147483648]]
      db := ()
      changes := 0 }

def longAgoResult : SqliteResult Unit := leaves (create calm (initial longAgo () 0 true))

theorem numbers_exact_iff_longAgo :
    Along (afterCall calm) (IntegersRead (fun cls v e => IsNumber e v ↔ InRange cls v) calm)
      longAgoResult [.fetch 1, .fetch (-1)] :=
  numbers_exact_iff calm longAgo () 0 longAgoResult rfl [.fetch 1, .fetch (-1)]

/-- The date that is 2^31 days from the first one comes back as another one. -/
theorem late_date_reduced :
    ¬∀ (env : Environment) (stmt : Stmt Unit) (r : SqliteResult Unit) (calls : List Call),
      create env (initial stmt () 0 true) = .ok () r →
      Along (afterCall env) (IntegersRead (fun _ v e => IsNumber e v) env) r calls := by
  intro h
  have hread := (h calm longAgo longAgoResult [.fetch (-1)] rfl).1
  have hcreate : create calm (initial longAgo () 0 true) = .ok () longAgoResult := rfl
  have hiff := integersRead_typed (typed_create hcreate) (.fetch (-1))
  have hreturns : Ends (fun _ _ => True) (fun _ _ => False) (fetch calm (-1) longAgoResult) := by
    decide +kernel
  rw [IntegersRead] at hread hiff
  cases hrun : fetch calm (-1) longAgoResult with
  | error e r =>
    rw [hrun] at hreturns
    exact hreturns
  | ok out r =>
    rw [hrun] at hread hiff
    have hdecl : DeclaredAs [68, 97, 116, 69] .date := .date (by decide)
    obtain ⟨x, e, hx, -, he, hnumber⟩ :=
      hread 0 "d" _ .date rfl hdecl 1 _ 2147483648 rfl rfl (by decide)
    obtain ⟨x', e', hx', -, he', hrange⟩ :=
      hiff 0 "d" _ .date rfl hdecl 1 _ 2147483648 rfl rfl (by decide)
    obtain rfl := Option.some.inj (hx.symm.trans hx')
    obtain rfl := Option.some.inj (he.symm.trans he')
    exact absurd (hrange.mp hnumber rfl).2 (by decide)

end RSQLCipher.ExtendedTypes
