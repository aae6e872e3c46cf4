import RSQLCipher.Library.TwoRuns
import RSQLCipher.Batching

namespace RSQLCipher.Metadata

open RSQLCipher.Library RSQLCipher.Values RSQLCipher.ColumnDataSource RSQLCipher.ColumnStorage
open RSQLCipher.Statement RSQLCipher.Params RSQLCipher.DataFrame RSQLCipher.ResultImpl
open RSQLCipher.ChunkContents RSQLCipher.FlatColumn RSQLCipher.FrameContents RSQLCipher.Stepping
open RSQLCipher.FetchedValues RSQLCipher.Fetching RSQLCipher.Binding RSQLCipher.Sessions
open RSQLCipher.Batching SqliteResult

variable {σ : Type}

def afterCall (env : Environment) (r : SqliteResult σ) : Call → SqliteResult σ
  | .bind params => leaves (dbBind env params r)
  | .fetch nMax => leaves (fetch env nMax r)
  | .getColumnInfo => leaves (getColumnInfo env r)

/-- The vectors that a fetch returns, or that it raised. -/
def batch (env : Environment) (r : SqliteResult σ) : Call → List (Option (List Sexp))
  | .fetch nMax =>
    match fetch env nMax r with
    | .ok out _ => [some out.columns]
    | .error _ _ => [none]
  | _ => []

def batches (env : Environment) : SqliteResult σ → List Call → List (Option (List Sexp))
  | _, [] => []
  | r, c :: calls => batch env r c ++ batches env (afterCall env r c) calls

def isQuery : Call → Bool
  | .getColumnInfo => true
  | _ => false

/-- A result with the types that its last fetch left, or that it was created with. -/
structure Watched (σ : Type) where
  result : SqliteResult σ
  fixed : List DataType

def Watched.next (env : Environment) (w : Watched σ) (c : Call) : Watched σ where
  result := afterCall env w.result c
  fixed :=
    match c with
    | .fetch nMax =>
      match fetch env nMax w.result with
      | .ok _ r => r.types
      | .error _ _ => w.fixed
    | _ => w.fixed

/-- The cell read as a 32-bit integer, and then widened, is the cell read at the type. -/
def ReadsAlike (src : SqliteColumnDataSource) (dt : DataType) (c : Cell) : Prop :=
  widen .int dt (convert src .int c) = convert src dt c

/-- The cells lead the first type to the second: the first values that come, if any, are
read alike as 32-bit integers and at the second type, and then one comes from which on the
two types are one. A column without a type and without values has its declared type. -/
inductive LedTo (src : SqliteColumnDataSource) : DataType → DataType → List Cell → Prop
  | same (dt : DataType) (cells : List Cell) : LedTo src dt dt cells
  | declared {dt : DataType} (h : src.getDeclDataType = dt) : LedTo src .unknown dt []
  | null {dt dt' : DataType} {cells : List Cell} (rest : LedTo src dt dt' cells) :
      LedTo src dt dt' (.null :: cells)
  | joined {dt dt' : DataType} {c : Cell} (hc : c ≠ .null) (h : nextType src dt c = nextType src dt' c)
      (cells : List Cell) : LedTo src dt dt' (c :: cells)
  | alike {dt dt' : DataType} {c : Cell} {cells : List Cell} (hc : c ≠ .null)
      (hint : nextType src dt c = .int) (halike : ReadsAlike src dt' c)
      (rest : LedTo src .int dt' cells) : LedTo src dt dt' (c :: cells)

/-- If the call is a fetch that returns, its values lead the types that the last fetch left
to those that were written since, column by column. -/
def LedWhenFetched (env : Environment) (w : Watched σ) : Call → Prop
  | .fetch nMax => Ends (fun _ _ => ∀ j dt dt', w.fixed[j]? = some dt →
      w.result.types[j]? = some dt' →
      LedTo (w.result.factory env j) (startType dt) (startType dt')
        (cellsOf (takeMax nMax w.result.pending) j))
    (fun _ _ => True) (fetch env nMax w.result)
  | _ => True

section Steps

variable (env : Environment) (types : List DataType)

theorem blind_bindParameters (j : Nat) (params : List Param) :
    Blind (retyped · types) (bindParameters env j params : ResultM σ Unit) := by
  induction params generalizing j with
  | nil => exact blind_pure _
  | cons value params ih =>
    refine blind_bind ?_ fun _ => ih (j + 1)
    intro r
    rw [bindParameterPos_eq, bindParameterPos_eq, show (retyped r types).clock = r.clock from rfl,
      show (retyped r types).group = r.group from rfl]
    cases env.fails r.clock with
    | some message => exact ⟨rfl, rfl⟩
    | none =>
      cases value.cell r.group with
      | error e | ok c => exact ⟨rfl, rfl⟩

theorem blind_bindRow : Blind (retyped · types) (bindRow env : ResultM σ Bool) := by
  intro r
  by_cases h : r.group < r.groups
  · rw [bindRow_more env r h, bindRow_more env (retyped r types) h]
    exact blind_bind (blind_bindParameters env types 0 r.params) (fun _ => blind_pure true)
      { r with handle := r.handle.sqlite3Reset.sqlite3ClearBindings }
  · rw [bindRow_last env r (not_lt.mp h), bindRow_last env (retyped r types) (not_lt.mp h)]
    exact ⟨rfl, rfl⟩

theorem blind_stepDone : Blind (retyped · types) (stepDone env : ResultM σ Bool) := by
  refine blind_bind (blind_modify fun _ => rfl) fun _ => ?_
  refine blind_bind (blind_bindRow env types) fun more => ?_
  exact blind_ite (blind_bind (blind_modify fun _ => rfl) fun _ => blind_pure more) (blind_pure more)

theorem blind_stepRun : Blind (retyped · types) (stepRun env : ResultM σ Bool) := by
  intro r
  rw [stepRun_eq, stepRun_eq, show (retyped r types).clock = r.clock from rfl,
    show (retyped r types).handle = r.handle from rfl]
  cases (r.handle.sqlite3Step (env.fails r.clock).isSome).1 with
  | done => exact blind_stepDone env types _
  | row => exact ⟨rfl, rfl⟩
  | error => exact ⟨rfl, rfl⟩

theorem blind_step : Blind (retyped · types) (step env : ResultM σ Unit) := by
  intro r
  exact blind_loop (fun _ => blind_bind (blind_stepRun env types) fun more => blind_pure ((), more))
    (r.groups - r.group + 1) () r

theorem blind_afterBind (more : Bool) :
    Blind (retyped · types) (afterBind env more : ResultM σ Unit) := by
  refine blind_bind (blind_modify fun _ => rfl) fun _ => ?_
  exact blind_ite (blind_step env types) (blind_pure _)

theorem leaves_dbBind (params : List Param) (r : SqliteResult σ) :
    leaves (dbBind env params (retyped r types)) = retyped (leaves (dbBind env params r)) types := by
  by_cases h : Accepts r params
  · rw [dbBind_accepted env params r h, dbBind_accepted env params (retyped r types) h]
    exact leaves_blind (blind_bind (blind_bindRow env types) fun more => blind_afterBind env types more)
      (withParams r params)
  · obtain ⟨e, he⟩ := dbBind_refused env params r h
    obtain ⟨e', he'⟩ := dbBind_refused env params (retyped r types) h
    rw [he, he']
    rfl

end Steps

/-- Two data frames that are filled with the same rows from different types. -/
structure Beside (env : Environment) (nMax : Int) (r : SqliteResult σ) (types : List DataType)
    (data : DbDataFrame) (s : SqliteResult σ) (data' : DbDataFrame) (t : SqliteResult σ) :
    Prop where
  holding : ∃ rows, Holding (r.factory env) r.names nMax r.types rows data ∧
    Holding (r.factory env) r.names nMax types rows data' ∧ data.i = rows.length ∧
    data'.i = rows.length
  state : t = retyped s types

theorem beside_fetchRound (env : Environment) (nMax : Int) (r : SqliteResult σ)
    (types : List DataType) (data : DbDataFrame) (s : SqliteResult σ) (data' : DbDataFrame)
    (t : SqliteResult σ) (h : Beside env nMax r types data s data' t) :
    Alike (fun p s' q t' => p.2 = q.2 ∧ Beside env nMax r types p.1 s' q.1 t')
      (fun s t => t = retyped s types) (fetchRound env data s) (fetchRound env data' t) := by
  obtain ⟨⟨rows, hdata, hdata', hi, hi'⟩, rfl⟩ := h
  cases hc : s.complete with
  | true =>
    rw [fetchRound_complete env data s hc, fetchRound_complete env data' (retyped s types) hc]
    exact ⟨rfl, ⟨rows, hdata, hdata', hi, hi'⟩, rfl⟩
  | false =>
    obtain ⟨next, hset, hnext, hholding⟩ := holding_setColValues hdata s.handle.currentRow
    obtain ⟨next', hset', hnext', hholding'⟩ := holding_setColValues hdata' s.handle.currentRow
    rw [fetchRound_running env data next s hc hset,
      fetchRound_running env data' next' (retyped s types) hc hset']
    have hcount : next'.i = next.i := by omega
    have hchecks : next'.checksInterrupt = next.checksInterrupt := by
      rw [DbDataFrame.checksInterrupt, hcount, DbDataFrame.checksInterrupt]
    rw [hchecks]
    have hadvance : ∀ u : SqliteResult σ, next.advance.2 = next'.advance.2 ∧
        Beside env nMax r types next.advance.1 u next'.advance.1 (retyped u types) := by
      intro u
      refine ⟨?_, ⟨rows ++ [s.handle.currentRow], ?_, ?_, ?_, ?_⟩, rfl⟩
      · simp only [DbDataFrame.advance, hcount, hholding.limit, hholding'.limit]
      · exact ⟨hholding.names, hholding.limit, hholding.received, hholding.filled⟩
      · exact ⟨hholding'.names, hholding'.limit, hholding'.received, hholding'.filled⟩
      · simp only [DbDataFrame.advance, List.length_append, List.length_singleton]
        omega
      · simp only [DbDataFrame.advance, List.length_append, List.length_singleton]
        omega
    refine alike_bind (blind_step env types s) ?_
    rintro _ s₁ _ _ ⟨rfl, rfl⟩
    cases next.checksInterrupt with
    | false => exact hadvance { s₁ with nrows := s₁.nrows + 1 }
    | true =>
      cases hfails : env.fails s₁.clock with
      | none =>
        simp only [if_true, bind_apply, modify_apply, chance, hfails, retyped]
        exact hadvance { s₁ with nrows := s₁.nrows + 1, clock := s₁.clock + 1 }
      | some message =>
        simp only [if_true, bind_apply, modify_apply, chance, hfails, retyped]
        exact ⟨rfl, rfl⟩

/-- The vectors of some rows, and the types that they fix. -/
structure FetchedFrom (env : Environment) (r : SqliteResult σ) (types : List DataType)
    (rows : List Row) (u : SqliteResult σ) (out : Fetched) (r' : SqliteResult σ) : Prop where
  received : out.received = rows
  columns : out.columns = vectors (r.factory env) rows rows.length 0 types
  state : r' = retyped u (fixedTypes (r.factory env) rows 0 types)

/-- A fetch reads the same rows whatever the types are. -/
theorem fetch_alike (env : Environment) (nMax : Int) (hmax : nMax ≠ 0) (r : SqliteResult σ)
    (hready : r.ready = true) (types : List DataType) :
    Alike (fun out r₁ out' r₂ => ∃ rows u, FetchedFrom env r r.types rows u out r₁ ∧
        FetchedFrom env r types rows u out' r₂)
      (fun r₁ r₂ => r₂ = retyped r₁ types) (fetch env nMax r) (fetch env nMax (retyped r types)) := by
  have hready' : (retyped r types).ready = true := hready
  rw [fetch_rows env nMax hmax r hready, fetch_rows env nMax hmax _ hready']
  have hloop : Alike (Beside env nMax r types) (fun s t => t = retyped s types)
      (fetchLoop env (DbDataFrame.new (r.factory env) r.names nMax r.types) r)
      (fetchLoop env (DbDataFrame.new (r.factory env) r.names nMax types) (retyped r types)) :=
    alike_loop (Beside env nMax r types)
    (fun _ _ _ _ h => h.state) (beside_fetchRound env nMax r types) (r.pending.length + 1)
    (DbDataFrame.new (r.factory env) r.names nMax r.types) r
    (DbDataFrame.new (r.factory env) r.names nMax types) (retyped r types)
    ⟨⟨[], holding_new _ _ _ _, holding_new _ _ _ _, rfl, rfl⟩, rfl⟩
  rw [fetchRows_eq, fetchRows_eq]
  refine alike_bind hloop ?_
  rintro data s data' _ ⟨⟨rows, hdata, hdata', hi, hi'⟩, rfl⟩
  obtain ⟨out, hget, -, hreceived, -, hcolumns⟩ := getData_spec hdata hi.le
  obtain ⟨out', hget', -, hreceived', -, hcolumns'⟩ := getData_spec hdata' hi'.le
  rw [hget, hget']
  rw [hi] at hcolumns
  rw [hi'] at hcolumns'
  exact ⟨rows, s, ⟨hreceived, hcolumns, rfl⟩, hreceived', hcolumns', rfl⟩

section Columns

/-- R's type, class and time zone tell the types of columns apart. -/
theorem dataType_eq {dt dt' : DataType} (htype : sexptypeFromDatatype dt = sexptypeFromDatatype dt')
    (hcls : classFromDatatype dt = classFromDatatype dt')
    (htzone : tzoneFromDatatype dt = tzoneFromDatatype dt') : dt = dt' := by
  cases dt <;> cases dt' <;>
    first
      | rfl
      | exact absurd htype (by decide)
      | exact absurd hcls (by decide)
      | exact absurd htzone (by decide)

theorem widens_cases {wide dt : DataType} (h : Widens wide dt) (hdt : dt ≠ .unknown) :
    dt = wide ∨ dt = .int := by
  cases h with
  | refl => exact .inl rfl
  | unknown => exact absurd rfl hdt
  | int => exact .inr rfl

theorem widens_int {wide : DataType} (h : Widens wide .int) (hne : wide ≠ .int) :
    wide = .int64 ∨ wide = .real := by
  cases h with
  | refl => exact absurd rfl hne
  | int h => exact h

/-- The element of a cell that is there depends on the type in force only if that is an
integer type in one case, and the cell is not read alike. -/
theorem element_eq_iff (src : SqliteColumnDataSource) {wide a b : DataType} (c : Cell)
    (ha : Widens wide a) (hb : Widens wide b) (ha' : a ≠ .unknown) (hb' : b ≠ .unknown) :
    widen a wide (convert src a c) = widen b wide (convert src b c) ↔
      a = b ∨ ReadsAlike src wide c := by
  by_cases hab : a = b
  · subst hab
    exact iff_of_true rfl (.inl rfl)
  rw [or_iff_right hab, ReadsAlike]
  obtain rfl | rfl := widens_cases ha ha'
  · obtain rfl | rfl := widens_cases hb hb'
    · exact absurd rfl hab
    · rw [widen_self a _ ha', eq_comm]
  · obtain rfl | rfl := widens_cases hb hb'
    · rw [widen_self b _ hb']
    · exact absurd rfl hab

/-- The type of the vector of a column that begins at a type. -/
def lastType (src : SqliteColumnDataSource) (dt : DataType) (cells : List Cell) : DataType :=
  if runningType src dt cells = .unknown then src.getDeclDataType else runningType src dt cells

/-- Columns that begin at two types end at one type, and have the same elements. -/
structure Agree (src : SqliteColumnDataSource) (dt dt' : DataType) (cells : List Cell) : Prop where
  last : lastType src dt cells = lastType src dt' cells
  elements : ∀ k c, cells[k]? = some c → c ≠ .null →
    runningType src dt (cells.take (k + 1)) = runningType src dt' (cells.take (k + 1)) ∨
      ReadsAlike src (lastType src dt' cells) c

section Agree

variable (src : SqliteColumnDataSource) (dt dt' : DataType) (cells : List Cell)

theorem agree_refl : Agree src dt dt cells := ⟨rfl, fun _ _ _ _ => .inl rfl⟩

theorem agree_null : Agree src dt dt' (.null :: cells) ↔ Agree src dt dt' cells := by
  constructor
  · rintro ⟨hlast, h⟩
    exact ⟨hlast, fun k c hk hc => h (k + 1) c hk hc⟩
  · rintro ⟨hlast, h⟩
    refine ⟨hlast, fun k c hk hc => ?_⟩
    cases k with
    | zero => exact absurd (Option.some.inj hk).symm hc
    | succ k => exact h k c hk hc

theorem runningType_cons {c : Cell} (hc : c ≠ .null) :
    runningType src dt (c :: cells) = runningType src (nextType src dt c) cells := by
  simp [runningType, hc]

theorem lastType_cons {c : Cell} (hc : c ≠ .null) :
    lastType src dt (c :: cells) = lastType src (nextType src dt c) cells := by
  rw [lastType, lastType, runningType_cons src dt cells hc]

theorem agree_cons {c : Cell} (hc : c ≠ .null) : Agree src dt dt' (c :: cells) ↔
    (nextType src dt c = nextType src dt' c ∨
      ReadsAlike src (lastType src (nextType src dt' c) cells) c) ∧
    Agree src (nextType src dt c) (nextType src dt' c) cells := by
  rw [← lastType_cons src dt' cells hc]
  constructor
  · rintro ⟨hlast, h⟩
    refine ⟨?_, ?_, fun k d hk hd => ?_⟩
    · have hfirst := h 0 c rfl hc
      rwa [List.take_succ_cons, runningType_cons src dt _ hc, runningType_cons src dt' _ hc] at hfirst
    · rwa [lastType_cons src dt cells hc, lastType_cons src dt' cells hc] at hlast
    · have hnext := h (k + 1) d hk hd
      rwa [List.take_succ_cons, runningType_cons src dt _ hc, runningType_cons src dt' _ hc,
        lastType_cons src dt' cells hc] at hnext
  · rintro ⟨hfirst, hlast, h⟩
    refine ⟨?_, fun k d hk hd => ?_⟩
    · rwa [lastType_cons src dt cells hc, lastType_cons src dt' cells hc]
    · rw [List.take_succ_cons, runningType_cons src dt _ hc, runningType_cons src dt' _ hc]
      cases k with
      | zero =>
        obtain rfl := Option.some.inj hk
        exact hfirst
      | succ k =>
        rw [lastType_cons src dt' cells hc]
        exact h k d hk hd

/-- A type that is neither unknown nor an integer type stays. -/
def Stays (dt : DataType) : Prop := dt ≠ .unknown ∧ dt ≠ .int

theorem nextType_stays {dt : DataType} (h : Stays dt) (c : Cell) : nextType src dt c = dt := by
  simp [nextType, h.1, h.2]

theorem runningType_stays {dt : DataType} (h : Stays dt) : runningType src dt cells = dt := by
  induction cells with
  | nil => rfl
  | cons c cells ih =>
    by_cases hc : c = .null
    · simpa [runningType, hc] using ih
    · rw [runningType_cons src dt cells hc, nextType_stays src h, ih]

theorem lastType_stays {dt : DataType} (h : Stays dt) : lastType src dt cells = dt := by
  rw [lastType, runningType_stays src cells h, if_neg h.1]

/-- What the types that queries write can be, given the type that the last fetch left. -/
def Behind (dt dt' : DataType) : Prop := dt = dt' ∨ dt' ≠ .unknown ∧ (dt = .unknown ∨ dt = .int)

theorem stays_or_int {dt : DataType} (h : dt ≠ .unknown) : Stays dt ∨ dt = .int := by
  by_cases hint : dt = .int
  · exact .inr hint
  · exact .inl ⟨h, hint⟩

/-- A value that an integer column takes as it is does not widen another one. -/
theorem nextType_int {dt : DataType} {c : Cell} (hint : nextType src dt c = .int) :
    nextType src .int c = .int ∨ dt = .int := by
  cases hc : src.getDataType c <;> cases dt <;> simp [nextType, hc] at hint ⊢

theorem agree_of_ledTo {dt dt' : DataType} {cells : List Cell} (hknown : dt' ≠ .unknown)
    (h : LedTo src dt dt' cells) : Agree src dt dt' cells := by
  induction h with
  | same dt cells => exact agree_refl src dt cells
  | @declared dt hdecl =>
    refine ⟨?_, fun k c hk => by cases hk⟩
    rw [lastType, lastType, runningType, runningType, List.foldl_nil, List.foldl_nil, if_pos rfl,
      if_neg hknown, hdecl]
  | null _ ih => exact (agree_null src _ _ _).mpr (ih hknown)
  | joined hc hjoin cells =>
    refine (agree_cons src _ _ cells hc).mpr ⟨.inl hjoin, ?_⟩
    rw [hjoin]
    exact agree_refl src _ cells
  | @alike dt dt' c cells hc hint halike _ ih =>
    refine (agree_cons src dt dt' cells hc).mpr ?_
    obtain hstays | rfl := stays_or_int hknown
    · rw [nextType_stays src hstays, lastType_stays src cells hstays, hint]
      exact ⟨.inr halike, ih hknown⟩
    · have hjoin : nextType src dt c = nextType src .int c := by
        obtain hsame | rfl := nextType_int src hint
        · rw [hint, hsame]
        · rfl
      rw [hjoin]
      exact ⟨.inl rfl, agree_refl src _ cells⟩

theorem ledTo_of_agree {dt dt' : DataType} {cells : List Cell} (hbehind : Behind dt dt')
    (h : Agree src dt dt' cells) : LedTo src dt dt' cells := by
  induction cells generalizing dt with
  | nil =>
    obtain rfl | ⟨hknown, rfl | rfl⟩ := hbehind
    · exact .same dt []
    · have hlast := h.last
      rw [lastType, lastType, runningType, runningType, List.foldl_nil, List.foldl_nil, if_pos rfl,
        if_neg hknown] at hlast
      exact .declared hlast
    · have hlast := h.last
      rw [lastType, lastType, runningType, runningType, List.foldl_nil, List.foldl_nil,
        if_neg hknown] at hlast
      obtain rfl : .int = dt' := hlast
      exact .same .int []
  | cons c cells ih =>
    by_cases hsame : dt = dt'
    · rw [hsame]
      exact .same dt' _
    obtain ⟨hknown, hdt⟩ := hbehind.resolve_left hsame
    by_cases hc : c = .null
    · subst hc
      exact .null (ih hbehind ((agree_null src dt dt' cells).mp h))
    obtain ⟨hfirst, hrest⟩ := (agree_cons src dt dt' cells hc).mp h
    by_cases hjoin : nextType src dt c = nextType src dt' c
    · exact .joined hc hjoin cells
    replace hfirst := hfirst.resolve_left hjoin
    obtain hstays | rfl := stays_or_int hknown
    · rw [nextType_stays src hstays] at hfirst hrest hjoin
      rw [lastType_stays src cells hstays] at hfirst
      obtain hleft | hint := stays_or_int (nextType_ne_unknown src dt c hc)
      · have hlast := hrest.last
        rw [lastType_stays src cells hleft, lastType_stays src cells hstays] at hlast
        exact absurd hlast hjoin
      · rw [hint] at hrest
        exact .alike hc hint hfirst (ih (.inr ⟨hknown, .inr rfl⟩) hrest)
    · -- a column without a type meets a value that an integer column reads as it can
      obtain rfl : dt = .unknown := hdt.resolve_right hsame
      have hlast := hrest.last
      have hint : nextType src .int c = .int := by
        cases hitem : src.getDataType c <;> simp [nextType, hitem] at hjoin ⊢
      have hleft : Stays (nextType src .unknown c) :=
        (stays_or_int (nextType_ne_unknown src .unknown c hc)).resolve_right fun h =>
          hjoin (h.trans hint.symm)
      have hwidens : Widens (nextType src .unknown c) .int := by
        rw [← lastType_stays src cells hleft, hlast, hint]
        exact widens_declared src (widens_runningType src cells .refl)
      have hitem : nextType src .unknown c = src.getDataType c := if_pos rfl
      obtain hwide | hwide := widens_int hwidens hleft.2
      · simp [nextType, hitem ▸ hwide] at hint
      · simp [nextType, hitem ▸ hwide] at hint

theorem agree_iff_ledTo {dt dt' : DataType} (h : Behind dt dt') :
    Agree src dt dt' cells ↔ LedTo src dt dt' cells := by
  constructor
  · exact ledTo_of_agree src h
  · intro hled
    obtain rfl | ⟨hknown, -⟩ := h
    · exact agree_refl src dt cells
    · exact agree_of_ledTo src hknown hled

end Agree

variable (src : SqliteColumnDataSource) (dt dt' : DataType) (cells : List Cell)

theorem elems_eq_iff (hfinal : finalType src dt cells = finalType src dt' cells) :
    (flatVector src dt cells).elems = (flatVector src dt' cells).elems ↔
      ∀ k c, cells[k]? = some c → c ≠ .null →
        runningType src (startType dt) (cells.take (k + 1)) =
          runningType src (startType dt') (cells.take (k + 1)) ∨
        ReadsAlike src (finalType src dt' cells) c := by
  have hknown : ∀ a k c, cells[k]? = some c → c ≠ .null →
      runningType src a (cells.take (k + 1)) ≠ .unknown := by
    intro a k c hk hc
    rw [runningType_take_succ src a cells k c hk hc]
    exact nextType_ne_unknown src _ c hc
  have helement : ∀ k c, cells[k]? = some c → c ≠ .null →
      ((flatVector src dt cells).elems[k]? = (flatVector src dt' cells).elems[k]? ↔
        runningType src (startType dt) (cells.take (k + 1)) =
          runningType src (startType dt') (cells.take (k + 1)) ∨
        ReadsAlike src (finalType src dt' cells) c) := by
    intro k c hk hc
    rw [flatVector_getElem src dt cells k c hk, flatVector_getElem src dt' cells k c hk, if_neg hc,
      if_neg hc, hfinal, Option.some.injEq]
    refine element_eq_iff src c ?_ (widens_finalType src dt' cells (k + 1)) (hknown _ k c hk hc)
      (hknown _ k c hk hc)
    rw [← hfinal]
    exact widens_finalType src dt cells (k + 1)
  constructor
  · intro h k c hk hc
    exact (helement k c hk hc).mp (by rw [h])
  · intro h
    apply List.ext_getElem?
    intro k
    cases hk : cells[k]? with
    | none =>
      have hlen : cells.length ≤ k := List.getElem?_eq_none_iff.mp hk
      rw [List.getElem?_eq_none (by simpa [flatVector, length_flatColumn] using hlen),
        List.getElem?_eq_none (by simpa [flatVector, length_flatColumn] using hlen)]
    | some c =>
      by_cases hc : c = .null
      · rw [flatVector_getElem src dt cells k c hk, flatVector_getElem src dt' cells k c hk,
          if_pos hc, if_pos hc, hfinal]
      · exact (helement k c hk hc).mpr (h k c hk hc)

theorem take_flatVector {n : ℕ} (hn : n = cells.length) :
    (flatVector src dt cells).elems.take n = (flatVector src dt cells).elems := by
  rw [List.take_of_length_le]
  simp [flatVector, length_flatColumn, hn]

theorem column_eq_iff {n : ℕ} (hn : n = cells.length) :
    { allocate n (finalType src dt cells) with elems := (flatVector src dt cells).elems.take n } =
      { allocate n (finalType src dt' cells) with elems := (flatVector src dt' cells).elems.take n } ↔
      Agree src (startType dt) (startType dt') cells := by
  rw [take_flatVector src dt cells hn, take_flatVector src dt' cells hn]
  constructor
  · intro h
    obtain ⟨htype, hcls, htzone, helems⟩ := Sexp.mk.inj h
    have hfinal := dataType_eq htype hcls htzone
    exact ⟨hfinal, (elems_eq_iff src dt dt' cells hfinal).mp helems⟩
  · rintro ⟨hfinal, h⟩
    have hlast : finalType src dt cells = finalType src dt' cells := hfinal
    rw [(elems_eq_iff src dt dt' cells hlast).mpr h, hlast]

end Columns

section Vectors

variable (factory : ℕ → SqliteColumnDataSource) (rows : List Row) {types types' : List DataType}

/-- Two lists of types agree, from a column on. -/
def AgreeFrom (j : ℕ) (types types' : List DataType) : Prop := ∀ k dt dt',
  types[k]? = some dt → types'[k]? = some dt' →
    Agree (factory (j + k)) (startType dt) (startType dt') (cellsOf rows (j + k))

theorem agreeFrom_cons (j : ℕ) (dt dt' : DataType) :
    AgreeFrom factory rows j (dt :: types) (dt' :: types') ↔
      Agree (factory j) (startType dt) (startType dt') (cellsOf rows j) ∧
        AgreeFrom factory rows (j + 1) types types' := by
  constructor
  · intro h
    refine ⟨h 0 dt dt' rfl rfl, fun k a a' ha ha' => ?_⟩
    have hnext := h (k + 1) a a' ha ha'
    rwa [← Nat.add_assoc, Nat.add_right_comm] at hnext
  · rintro ⟨hhead, htail⟩ k a a' ha ha'
    cases k with
    | zero =>
      cases ha
      cases ha'
      exact hhead
    | succ k =>
      have hnext := htail k a a' ha ha'
      rwa [Nat.add_right_comm, Nat.add_assoc] at hnext

theorem vectors_eq_iff (j : ℕ) (hlen : types.length = types'.length) :
    vectors factory rows rows.length j types = vectors factory rows rows.length j types' ↔
      AgreeFrom factory rows j types types' := by
  induction types generalizing j types' with
  | nil =>
    obtain rfl := List.length_eq_zero_iff.mp hlen.symm
    exact iff_of_true rfl fun k dt dt' h => by cases h
  | cons dt types ih =>
    obtain ⟨dt', types', rfl⟩ := List.exists_cons_of_length_eq_add_one hlen.symm
    rw [agreeFrom_cons, vectors, vectors, List.cons.injEq, ih (j + 1) (by simpa using hlen),
      column_eq_iff (factory j) dt dt' (cellsOf rows j) (by simp [cellsOf])]

theorem fixedTypes_eq (j : ℕ) (hlen : types.length = types'.length)
    (h : AgreeFrom factory rows j types types') :
    fixedTypes factory rows j types = fixedTypes factory rows j types' := by
  induction types generalizing j types' with
  | nil =>
    obtain rfl := List.length_eq_zero_iff.mp hlen.symm
    rfl
  | cons dt types ih =>
    obtain ⟨dt', types', rfl⟩ := List.exists_cons_of_length_eq_add_one hlen.symm
    obtain ⟨hhead, htail⟩ := (agreeFrom_cons factory rows j dt dt').mp h
    have hfinal : finalType (factory j) dt (cellsOf rows j) =
        finalType (factory j) dt' (cellsOf rows j) :=
      hhead.last
    rw [fixedTypes, fixedTypes, hfinal, ih (j + 1) (by simpa using hlen) htail]

end Vectors

section Run

variable (env : Environment)

/-- The types that the last fetch left, and those that were written since. -/
def Follows (fixed types : List DataType) : Prop :=
  List.Forall₂ (fun dt dt' => Behind (startType dt) (startType dt')) fixed types

theorem follows_refl (types : List DataType) : Follows types types := by
  induction types with
  | nil => exact .nil
  | cons dt types ih => exact .cons (.inl rfl) ih

/-- A column that begins at a type has no other kind of type after its cells. -/
theorem startType_finalType (src : SqliteColumnDataSource) {dt : DataType} (cells : List Cell)
    (h : startType dt ≠ .unknown) : startType (finalType src dt cells) ≠ .unknown := by
  have hw := widens_finalType src dt cells 0
  rw [List.take_zero] at hw
  obtain hsame | hint := widens_cases hw h
  · rw [← hsame]
    cases dt <;> exact h
  · by_cases hne : finalType src dt cells = .int
    · rw [hne]
      decide
    · replace hw : Widens (finalType src dt cells) .int := hint ▸ hw
      obtain hwide | hwide := widens_int hw hne
      · rw [hwide]
        decide
      · rw [hwide]
        decide

/-- The types that a query writes are again ones that the last fetch can be behind. -/
theorem behind_finalType (src : SqliteColumnDataSource) {dt dt' : DataType} (cells : List Cell)
    (h : Behind dt (startType dt')) : Behind dt (startType (finalType src dt' cells)) := by
  obtain rfl | ⟨hknown, hdt⟩ := h
  · by_cases hunknown : startType dt' = .unknown
    · rw [hunknown]
      by_cases hnext : startType (finalType src dt' cells) = .unknown
      · exact .inl hnext.symm
      · exact .inr ⟨hnext, .inl rfl⟩
    · have hnext := startType_finalType src cells hunknown
      obtain hstays | hint := stays_or_int hunknown
      · left
        have hfinal : finalType src dt' cells = startType dt' := lastType_stays src cells hstays
        rw [hfinal]
        cases dt' <;> rfl
      · exact .inr ⟨hnext, .inr hint⟩
  · exact .inr ⟨startType_finalType src cells hknown, hdt⟩

theorem follows_fixedTypes (factory : ℕ → SqliteColumnDataSource) (rows : List Row) (j : ℕ)
    {fixed types : List DataType} (h : Follows fixed types) :
    Follows fixed (fixedTypes factory rows j types) := by
  induction h generalizing j with
  | nil => exact .nil
  | cons hhead _ ih => exact .cons (behind_finalType (factory j) _ hhead) (ih (j + 1))

theorem behind_of_follows {fixed types : List DataType} (h : Follows fixed types) {j : ℕ}
    {dt dt' : DataType} (hdt : fixed[j]? = some dt) (hdt' : types[j]? = some dt') :
    Behind (startType dt) (startType dt') := by
  induction h generalizing j with
  | nil => cases hdt
  | cons hhead _ ih =>
    cases j with
    | zero =>
      obtain rfl := Option.some.inj hdt
      obtain rfl := Option.some.inj hdt'
      exact hhead
    | succ j => exact ih hdt hdt'

structure Tracked (w : Watched σ) : Prop where
  sized : Sized w.result
  follows : Follows w.fixed w.result.types

theorem sized_dbBind (params : List Param) (r : SqliteResult σ) (h : Sized r) :
    Sized (leaves (dbBind env params r)) := by
  by_cases ha : Accepts r params
  · have hbind := dbBind_spec env params r h ha
    cases hrun : dbBind env params r with
    | ok u r' =>
      rw [hrun] at hbind
      exact hbind.ready.sized
    | error e r' =>
      rw [hrun] at hbind
      exact hbind.sized
  · obtain ⟨e, he⟩ := dbBind_refused env params r ha
    rw [he]
    exact h

theorem types_dbBind (params : List Param) (r : SqliteResult σ) :
    (leaves (dbBind env params r)).types = r.types := by
  have htypes := leaves_dbBind env r.types params r
  rw [show retyped r r.types = r from rfl] at htypes
  rw [htypes]
  rfl

theorem next_ok {w : Watched σ} {nMax : Int} {out : Fetched} {r : SqliteResult σ}
    (hrun : fetch env nMax w.result = .ok out r) : w.next env (.fetch nMax) = ⟨r, r.types⟩ := by
  simp only [Watched.next, afterCall, hrun, leaves]

theorem next_error {w : Watched σ} {nMax : Int} {e : Fault} {r : SqliteResult σ}
    (hrun : fetch env nMax w.result = .error e r) : w.next env (.fetch nMax) = ⟨r, w.fixed⟩ := by
  simp only [Watched.next, afterCall, hrun, leaves]

theorem tracked_next (w : Watched σ) (h : Tracked w) (c : Call) (hc : c ≠ .fetch 0) :
    Tracked (w.next env c) := by
  cases c with
  | getColumnInfo =>
    obtain ⟨out, rows, hinfo⟩ := getColumnInfo_fixes env w.result
    have hnext : w.next env .getColumnInfo = ⟨retyped w.result
        (fixedTypes (w.result.factory env) rows 0 w.result.types), w.fixed⟩ := by
      simp only [Watched.next, afterCall, hinfo, leaves]
    rw [hnext]
    exact ⟨⟨h.sized.bindings, h.sized.params⟩, follows_fixedTypes _ rows 0 h.follows⟩
  | bind params =>
    refine ⟨sized_dbBind env params w.result h.sized, ?_⟩
    show Follows w.fixed (leaves (dbBind env params w.result)).types
    rw [types_dbBind]
    exact h.follows
  | fetch nMax =>
    have hmax : nMax ≠ 0 := fun h0 => hc (by rw [h0])
    cases hready : w.result.ready with
    | false =>
      rw [next_error env (fetch_notReady env nMax w.result hready)]
      exact h
    | true =>
      have hfetch := fetch_spec env nMax hmax w.result h.sized hready
      cases hrun : fetch env nMax w.result with
      | ok out r =>
        rw [hrun] at hfetch
        rw [next_ok env hrun]
        exact ⟨sized_returned h.sized hfetch, follows_refl r.types⟩
      | error e r =>
        rw [hrun] at hfetch
        obtain ⟨m, hkept⟩ := hfetch.kept
        have hfollows := h.follows
        rw [next_error env hrun]
        refine ⟨sized_lost h.sized hfetch, ?_⟩
        show Follows w.fixed r.types
        rw [hkept.types]
        exact hfollows

theorem agreeFrom_iff_ledTo {w : Watched σ} (h : Follows w.fixed w.result.types) (rows : List Row) :
    AgreeFrom (w.result.factory env) rows 0 w.fixed w.result.types ↔
      ∀ j dt dt', w.fixed[j]? = some dt → w.result.types[j]? = some dt' →
        LedTo (w.result.factory env j) (startType dt) (startType dt') (cellsOf rows j) := by
  have hcolumn : ∀ j dt dt', w.fixed[j]? = some dt → w.result.types[j]? = some dt' →
      (Agree (w.result.factory env j) (startType dt) (startType dt') (cellsOf rows j) ↔
        LedTo (w.result.factory env j) (startType dt) (startType dt') (cellsOf rows j)) :=
    fun j dt dt' hdt hdt' => agree_iff_ledTo _ _ (behind_of_follows h hdt hdt')
  constructor
  · intro hagree j dt dt' hdt hdt'
    have hled := hagree j dt dt' hdt hdt'
    rw [Nat.zero_add] at hled
    exact (hcolumn j dt dt' hdt hdt').mp hled
  · intro hled j dt dt' hdt hdt'
    rw [Nat.zero_add]
    exact (hcolumn j dt dt' hdt hdt').mpr (hled j dt dt' hdt hdt')

/-- One fetch beside the same fetch of a result that no query has touched. -/
theorem fetch_compared (w : Watched σ) (h : Tracked w) (nMax : Int) (hmax : nMax ≠ 0) :
    Alike (fun out r out' r' => (out.columns = out'.columns ↔ LedWhenFetched env w (.fetch nMax)) ∧
        (LedWhenFetched env w (.fetch nMax) → r' = r))
      (fun r r' => LedWhenFetched env w (.fetch nMax) ∧ r' = retyped r w.fixed)
      (fetch env nMax w.result) (fetch env nMax (retyped w.result w.fixed)) := by
  cases hready : w.result.ready with
  | false =>
    have hready' : (retyped w.result w.fixed).ready = false := hready
    have hled : LedWhenFetched env w (.fetch nMax) := by
      rw [LedWhenFetched, fetch_notReady env nMax w.result hready]
      trivial
    rw [fetch_notReady env nMax w.result hready, fetch_notReady env nMax _ hready']
    exact ⟨rfl, hled, rfl⟩
  | true =>
    have hfetch := fetch_spec env nMax hmax w.result h.sized hready
    obtain ⟨out, r, out', r', hrun, hrun', rows, u, hfrom, hfrom'⟩ | ⟨e, r, r', hrun, hrun', hr⟩ :=
      alike_cases (fetch_alike env nMax hmax w.result hready w.fixed)
    · rw [hrun] at hfetch
      obtain ⟨s, types, hdelivered, -⟩ := hfetch.delivered
      have hrows : rows = takeMax nMax w.result.pending := by
        rw [← hfrom.received]
        exact hdelivered.rows
      have hled : LedWhenFetched env w (.fetch nMax) ↔
          AgreeFrom (w.result.factory env) rows 0 w.fixed w.result.types := by
        rw [agreeFrom_iff_ledTo env h.follows, hrows, LedWhenFetched, hrun]
        exact Iff.rfl
      have hlen : w.fixed.length = w.result.types.length := h.follows.length_eq
      rw [hrun, hrun', hled]
      refine ⟨?_, fun hagree => ?_⟩
      · rw [hfrom.columns, hfrom'.columns, eq_comm]
        exact vectors_eq_iff _ rows 0 hlen
      · rw [hfrom.state, hfrom'.state, fixedTypes_eq _ rows 0 hlen hagree]
    · have hled : LedWhenFetched env w (.fetch nMax) := by
        rw [LedWhenFetched, hrun]
        trivial
      rw [hrun, hrun']
      exact ⟨rfl, hled, hr⟩

theorem batches_eq_iff_of_tracked (calls : List Call) (hcalls : ∀ c ∈ calls, c ≠ .fetch 0)
    (w : Watched σ) (h : Tracked w) :
    batches env w.result calls =
        batches env (retyped w.result w.fixed) (calls.filter fun c => !isQuery c) ↔
      Along (Watched.next env) (LedWhenFetched env) w calls := by
  induction calls generalizing w with
  | nil => exact iff_of_true rfl trivial
  | cons c calls ih =>
    have htracked := tracked_next env w h c (hcalls c List.mem_cons_self)
    have hrest := ih (fun d hd => hcalls d (List.mem_cons_of_mem c hd)) (w.next env c) htracked
    cases c with
    | getColumnInfo =>
      obtain ⟨out, rows, hinfo⟩ := getColumnInfo_fixes env w.result
      have hsame : retyped (w.next env .getColumnInfo).result w.fixed = retyped w.result w.fixed := by
        simp only [Watched.next, afterCall, hinfo, leaves, retyped]
      rw [show (w.next env .getColumnInfo).fixed = w.fixed from rfl, hsame] at hrest
      exact ⟨fun hsame => ⟨trivial, hrest.mp hsame⟩, fun halong => hrest.mpr halong.2⟩
    | bind params =>
      rw [show (w.next env (.bind params)).fixed = w.fixed from rfl,
        show (w.next env (.bind params)).result = leaves (dbBind env params w.result) from rfl,
        ← leaves_dbBind] at hrest
      exact ⟨fun hsame => ⟨trivial, hrest.mp hsame⟩, fun halong => hrest.mpr halong.2⟩
    | fetch nMax =>
      have hmax : nMax ≠ 0 := fun h0 => hcalls _ List.mem_cons_self (by rw [h0])
      rw [List.filter_cons_of_pos rfl, batches, batches, Along, afterCall, afterCall, batch, batch]
      obtain ⟨out, r, out', r', hrun, hrun', hcolumns, hstate⟩ | ⟨e, r, r', hrun, hrun', hled, rfl⟩ :=
        alike_cases (fetch_compared env w h nMax hmax)
      · rw [next_ok env hrun] at hrest ⊢
        rw [hrun, hrun', ← hcolumns]
        rw [← hcolumns] at hstate
        constructor
        · intro hsame
          obtain ⟨hhead, htail⟩ := List.cons.inj hsame
          have hout := Option.some.inj hhead
          obtain rfl := hstate hout
          exact ⟨hout, hrest.mp htail⟩
        · rintro ⟨hout, halong⟩
          obtain rfl := hstate hout
          have htail := hrest.mpr halong
          show some out.columns :: _ = some out'.columns :: _
          rw [hout]
          exact congrArg _ htail
      · rw [next_error env hrun] at hrest ⊢
        rw [hrun, hrun']
        constructor
        · intro hsame
          exact ⟨hled, hrest.mp (List.cons.inj hsame).2⟩
        · rintro ⟨-, halong⟩
          exact congrArg _ (hrest.mpr halong)

end Run

/-- Queries of the metadata leave every batch as it is if and only if every fetch leads the
types that the fetch before it left to those that the queries have written. -/
theorem batches_eq_iff (env : Environment) (stmt : Stmt σ) (db : σ) (totalChanges : ℕ)
    (withAltTypes : Bool) (r : SqliteResult σ)
    (hcreate : create env (initial stmt db totalChanges withAltTypes) = .ok () r) (calls : List Call)
    (hcalls : ∀ c ∈ calls, c ≠ .fetch 0) :
    batches env r calls = batches env r (calls.filter fun c => !isQuery c) ↔
      Along (Watched.next env) (LedWhenFetched env) ⟨r, r.types⟩ calls := by
  have hstart : Session.start env stmt db totalChanges withAltTypes =
      some (Session.opened stmt db r) := by
    simp only [Session.start, hcreate]
  exact batches_eq_iff_of_tracked env calls hcalls ⟨r, r.types⟩
    ⟨sized_started (started_start hstart), follows_refl r.types⟩

/-- One column that is declared as one of integers, and holds a NULL and the text `abc`. -/
def mixed : Stmt Unit where
  columns := [("a", some [73, 78, 84, 69, 71, 69, 82])]
  parameters := []
  run _ _ := { rows := [[.null], [.text [97, 98, 99]]], db := (), changes := 0 }

def mixedResult : SqliteResult Unit := leaves (create calm (initial mixed () 0 false))

theorem batches_eq_iff_mixed :
    batches calm mixedResult [.fetch 1, .getColumnInfo, .fetch (-1)] =
        batches calm mixedResult ([.fetch 1, .getColumnInfo, .fetch (-1)].filter fun c => !isQuery c) ↔
      Along (Watched.next calm) (LedWhenFetched calm) ⟨mixedResult, mixedResult.types⟩
        [.fetch 1, .getColumnInfo, .fetch (-1)] :=
  batches_eq_iff calm mixed () 0 false mixedResult rfl _ (by
    intro c hc
    simp only [List.mem_cons, List.not_mem_nil, or_false] at hc
    obtain rfl | rfl | rfl := hc <;> simp)

/-- A query before the first fetch makes integers of the values that come after a NULL. -/
theorem query_retypes :
    ¬∀ (env : Environment) (stmt : Stmt Unit) (r : SqliteResult Unit) (calls : List Call),
      create env (initial stmt () 0 false) = .ok () r → (∀ c ∈ calls, c ≠ .fetch 0) →
      batches env r calls = batches env r (calls.filter fun c => !isQuery c) := by
  intro h
  have hsame := h calm mixed mixedResult [.getColumnInfo, .fetch (-1)] rfl (by
    intro c hc
    simp only [List.mem_cons, List.not_mem_nil, or_false] at hc
    obtain rfl | rfl := hc <;> simp)
  exact absurd hsame (by decide +kernel)

end RSQLCipher.Metadata
