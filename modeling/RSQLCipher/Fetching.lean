import RSQLCipher.FrameContents
import RSQLCipher.Course

namespace RSQLCipher.Fetching

open RSQLCipher.Library RSQLCipher.Values RSQLCipher.Statement RSQLCipher.DataFrame
open RSQLCipher.ResultImpl RSQLCipher.FrameContents RSQLCipher.Stepping RSQLCipher.Course
open SqliteResult

variable {σ : Type}

def plan (r : SqliteResult σ) : List (List Cell) :=
  if r.complete then r.handle.begun else executions r

def planDb (r : SqliteResult σ) : σ :=
  if r.complete then r.handle.db else finalDb r

def AtRow (r : SqliteResult σ) : Prop := r.complete = true ∨ ∃ c, r.handle.cursor = some c

instance (r : SqliteResult σ) : Decidable (AtRow r) :=
  decidable_of_iff (r.complete = true ∨ r.handle.cursor.isSome = true)
    (by simp [AtRow, Option.isSome_iff_exists])

theorem pending_complete {r : SqliteResult σ} (h : r.complete = true) : r.pending = [] := by
  simp [pending, h]

theorem pending_running {r : SqliteResult σ} (h : r.complete = false) :
    r.pending = r.handle.currentRow :: r.upcoming := by
  simp [pending, h]

theorem plan_complete {r : SqliteResult σ} (h : r.complete = true) : plan r = r.handle.begun := by
  simp [plan, h]

theorem plan_running {r : SqliteResult σ} (h : r.complete = false) : plan r = executions r := by
  simp [plan, h]

theorem begun_prefix_plan (r : SqliteResult σ) : r.handle.begun <+: plan r := by
  unfold plan
  split
  · exact List.prefix_refl _
  · exact List.prefix_append _ _

theorem pending_reached {r r' : SqliteResult σ} (h : Reached r r') : r'.pending = r.upcoming := by
  cases h with
  | row c running cursor upcoming =>
    rw [pending_running running, upcoming]
    simp [Handle.currentRow, cursor]
  | complete complete _ upcoming => rw [pending_complete complete, upcoming]

theorem atRow_reached {r r' : SqliteResult σ} (h : Reached r r') : AtRow r' := by
  cases h with
  | row c _ cursor => exact .inr ⟨c, cursor⟩
  | complete complete => exact .inl complete

theorem plan_reached {r r' : SqliteResult σ} (hrun : r.complete = false) (h : Reached r r') :
    plan r' = plan r ∧ planDb r' = planDb r := by
  cases h with
  | row c running _ _ executions finalDb =>
    simp [plan, planDb, running, hrun, executions, finalDb]
  | complete complete _ _ executions finalDb =>
    simp [plan, planDb, complete, hrun, executions, finalDb]

/-- The state `r'` is ahead of `r` by a list of rows that were read. -/
structure Ahead (r r' : SqliteResult σ) (rows : List Row) : Prop where
  kept : Kept { r with nrows := r.nrows + rows.length } r'
  pending : r.pending = rows ++ r'.pending
  plan : plan r' = plan r
  planDb : planDb r' = planDb r
  atRow : AtRow r → AtRow r'
  complete : r.complete = true → r'.complete = true

theorem ahead_refl (r : SqliteResult σ) : Ahead r r [] :=
  ⟨kept_refl r, rfl, rfl, rfl, fun h => h, fun h => h⟩

def counted (r : SqliteResult σ) (clock : Nat) : SqliteResult σ :=
  { r with nrows := r.nrows + 1, clock := clock }

theorem ahead_counted {r s t : SqliteResult σ} {rows : List Row} (h : Ahead r s rows)
    (hrun : s.complete = false) (hk : Kept s t) (ht : Reached s t) (clock : Nat) :
    Ahead r (counted t clock) (rows ++ [s.handle.currentRow]) where
  kept := by
    have hkept := kept_trans h.kept hk
    refine ⟨hkept.stmt, hkept.begun, hkept.width, hkept.ready, ?_,
      hkept.totalChangesStart, hkept.params, hkept.groups, hkept.types, hkept.withAltTypes⟩
    have hnrows := hkept.nrows
    simp only [counted, List.length_append, List.length_singleton] at hnrows ⊢
    omega
  pending := by
    rw [h.pending, pending_running hrun, ← pending_reached ht, List.append_assoc]
    rfl
  plan := (plan_reached hrun ht).1.trans h.plan
  planDb := (plan_reached hrun ht).2.trans h.planDb
  atRow _ := by
    have hrow := atRow_reached ht
    exact hrow
  complete hc := by
    rw [h.complete hc] at hrun
    cases hrun

/-- A fetch has raised. Either no row is current, or rows were counted and are lost. -/
structure Lost (env : Environment) (r r' : SqliteResult σ) : Prop where
  running : r.complete = false
  kept : ∃ m, Kept { r with nrows := m } r'
  begun : r'.handle.begun <+: plan r
  broken : (r'.complete = false ∧ r'.handle.cursor = none) ∨
    (r.nrows < r'.nrows ∧ plan r' = plan r ∧ AtRow r')
  cause : ¬NoFailure env r

/-- A data frame that holds as many rows as it counts, and has room for more. -/
structure Filling (env : Environment) (nMax : Int) (r : SqliteResult σ) (data : DbDataFrame)
    (s : SqliteResult σ) (rows : List Row) : Prop where
  ahead : Ahead r s rows
  holding : Holding (r.factory env) r.names nMax r.types rows data
  count : data.i = rows.length

theorem checksInterrupt_spec (env : Environment) (data : DbDataFrame) (r : SqliteResult σ) :
    Ends (fun p r' => p = data.advance ∧ ∃ k, r' = { r with clock := k })
      (fun _ r' => (∃ k, r' = { r with clock := k }) ∧ ∃ k, env.fails k ≠ none)
      ((do
        if data.checksInterrupt then
          if (← chance env).isSome then throw .interrupt
        return data.advance : ResultM σ (DbDataFrame × Bool)) r) := by
  cases hi : data.checksInterrupt with
  | false => exact ⟨rfl, r.clock, rfl⟩
  | true =>
    cases hf : env.fails r.clock with
    | none =>
      simp [chance, hf]
    | some message =>
      simp [chance, hf]
      exact ⟨r.clock, by simp [hf]⟩

theorem fetchRound_complete (env : Environment) (data : DbDataFrame) (s : SqliteResult σ)
    (h : s.complete = true) : fetchRound env data s = .ok (data, false) s := by
  simp [fetchRound, h]

theorem fetchRound_running (env : Environment) (data data' : DbDataFrame) (s : SqliteResult σ)
    (h : s.complete = false) (hset : data.setColValues s.handle.currentRow = .ok data') :
    fetchRound env data s = (do
      step env
      modify fun r => { r with nrows := r.nrows + 1 }
      if data'.checksInterrupt then
        if (← chance env).isSome then throw .interrupt
      return data'.advance : ResultM σ (DbDataFrame × Bool)) s := by
  simp [fetchRound, h, hset, liftExcept]

/-- One round of a fetch: it reads the row that is next, and never fails for its
columns. -/
theorem fetchRound_spec (env : Environment) (nMax : Int) (r : SqliteResult σ) (hs : Sized r)
    {data : DbDataFrame} {s : SqliteResult σ} {rows : List Row}
    (h : Filling env nMax r data s rows) (hrun : s.complete = false) :
    Ends (fun p s' => ∃ data', p = data'.advance ∧ data'.i = rows.length ∧
        Holding (r.factory env) r.names nMax r.types (rows ++ [s.handle.currentRow]) data' ∧
        Ahead r s' (rows ++ [s.handle.currentRow]))
      (fun _ s' => Lost env r s') (fetchRound env data s) := by
  obtain ⟨data', hset, hi, hholding⟩ := holding_setColValues h.holding s.handle.currentRow
  rw [fetchRound_running env data data' s hrun hset]
  have hrunning : r.complete = false := by
    by_contra hc
    rw [h.ahead.complete (Bool.not_eq_false _ |>.mp hc)] at hrun
    cases hrun
  have hsized : Sized s := sized_kept (r := { r with nrows := r.nrows + rows.length })
    ⟨hs.bindings, hs.params⟩ h.ahead.kept
  refine ends_bind (ends_mono (step_spec env s hsized hrun) (fun _ _ ht => ht) ?_) ?_
  · rintro - t ⟨hkept, hfailed⟩
    refine ⟨hrunning, ⟨_, kept_trans h.ahead.kept hkept⟩, ?_,
      .inl ⟨hfailed.running, hfailed.cursor⟩, ?_⟩
    · rw [← h.ahead.plan, plan, hrun]
      exact hfailed.begun
    · intro hno
      exact hfailed.cause (noFailure_kept (r := { r with nrows := r.nrows + rows.length })
        ⟨hno.calls, hno.bound⟩ h.ahead.kept)
  · rintro - t ⟨hkept, hreached⟩
    have hahead := ahead_counted h.ahead hrun hkept hreached
    rw [bind_ok (modify_apply _ t)]
    refine ends_mono (checksInterrupt_spec env data' _) ?_ ?_
    · rintro - s' ⟨rfl, k, rfl⟩
      exact ⟨data', rfl, hi.trans h.count, hholding, hahead k⟩
    · rintro - s' ⟨⟨k, rfl⟩, m, hm⟩
      have hbegun := begun_prefix_plan (counted t k)
      have hrow := atRow_reached hreached
      rw [(hahead k).plan] at hbegun
      refine ⟨hrunning, ⟨_, (hahead k).kept⟩, hbegun, .inr ⟨?_, (hahead k).plan, hrow⟩,
        fun hno => hm (hno.calls m)⟩
      have hnrows := (hahead k).kept.nrows
      simp only [counted, List.length_append, List.length_singleton] at hnrows ⊢
      omega

def takeMax (nMax : Int) (rows : List Row) : List Row :=
  if nMax < 0 then rows else rows.take nMax.toNat

structure Delivered (nMax : Int) (r r' : SqliteResult σ) (rows : List Row) : Prop where
  ahead : Ahead r r' rows
  rows : rows = takeMax nMax r.pending

theorem takeMax_append {nMax : Int} {rows rest : List Row}
    (h : rest = [] ∧ (nMax < 0 ∨ rows.length < nMax) ∨ (rows.length : Int) = nMax) :
    rows = takeMax nMax (rows ++ rest) := by
  unfold takeMax
  obtain ⟨rfl, hroom⟩ | hfull := h
  · rw [List.append_nil]
    split
    · rfl
    · rw [List.take_of_length_le]
      omega
  · rw [if_neg (by omega), ← hfull]
    simp

theorem fetchLoop_spec (env : Environment) (nMax : Int) (hmax : nMax ≠ 0) (r : SqliteResult σ)
    (hs : Sized r) {data : DbDataFrame} (hdata : Filling env nMax r data r []) :
    Ends (fun data' r' => ∃ rows, Filling env nMax r data' r' rows ∧ Delivered nMax r r' rows)
      (fun _ r' => Lost env r r') (fetchLoop env data r) := by
  refine ends_loop (fun data s => ∃ rows, Filling env nMax r data s rows ∧
      (nMax < 0 ∨ (rows.length : Int) < nMax)) (fun _ s => s.pending.length)
    ?_ _ data r ⟨[], hdata, ?_⟩ (Nat.lt_succ_self _)
  · rintro data s ⟨rows, hfill, hroom⟩
    cases hrun : s.complete with
    | true =>
      rw [fetchRound_complete env data s hrun]
      refine ⟨rows, hfill, hfill.ahead, ?_⟩
      rw [hfill.ahead.pending, pending_complete hrun]
      exact takeMax_append (.inl ⟨rfl, hroom⟩)
    | false =>
      refine ends_mono (fetchRound_spec env nMax r hs hfill hrun) ?_ (fun _ _ h => h)
      rintro p s' ⟨data', rfl, hi, hholding, hahead⟩
      have hfill' : Filling env nMax r data'.advance.1 s' (rows ++ [s.handle.currentRow]) :=
        ⟨hahead, ⟨hholding.names, hholding.limit, hholding.received, hholding.filled⟩,
          by simp [DbDataFrame.advance, hi]⟩
      have hlen : (rows ++ [s.handle.currentRow]).length = rows.length + 1 := by simp
      have hmore : data'.advance.2 = true ↔ nMax < 0 ∨ (rows.length : Int) + 1 < nMax := by
        simp [DbDataFrame.advance, hholding.limit, hi]
      by_cases hnext : data'.advance.2 = true
      · rw [if_pos hnext]
        refine ⟨⟨_, hfill', ?_⟩, ?_⟩
        · rw [hlen]
          exact hmore.mp hnext
        · have hpending := hfill.ahead.pending
          rw [hahead.pending, List.append_assoc] at hpending
          rw [← List.append_cancel_left hpending]
          simp
      · rw [if_neg hnext]
        refine ⟨_, hfill', hahead, ?_⟩
        rw [hahead.pending]
        refine takeMax_append (.inr ?_)
        rw [hlen]
        rw [hmore] at hnext
        omega
  · simp only [List.length_nil, Int.natCast_zero]
    omega

def retyped (r : SqliteResult σ) (types : List DataType) : SqliteResult σ := { r with types }

structure Returned (env : Environment) (nMax : Int) (r r' : SqliteResult σ) (out : Fetched) :
    Prop where
  delivered : ∃ s types, Delivered nMax r s out.received ∧ r' = retyped s types
  names : out.names = r.names
  nrow : out.nrow = out.received.length
  columns : out.columns = vectors (r.factory env) out.received out.nrow 0 r.types

theorem fetchRows_eq (env : Environment) (nMax : Int) (r : SqliteResult σ) :
    fetchRows env nMax r = (do
      let data ← fetchLoop env (DbDataFrame.new (r.factory env) r.names nMax r.types)
      let p ← liftExcept data.getData
      modify fun r => { r with types := p.2 }
      return { p.1 with warnings := (if r.complete && (DbDataFrame.new (r.factory env) r.names nMax
        r.types).getNcols = 0 then [notSelect] else []) ++ p.1.warnings } : ResultM σ Fetched) r := rfl

/-- A fetch of some rows fills a data frame with the first rows that are pending, or loses
rows. -/
theorem fetchRows_filled (env : Environment) (nMax : Int) (hmax : nMax ≠ 0) (r : SqliteResult σ)
    (hs : Sized r) :
    Ends (fun out r' => ∃ data s fetched types, Filling env nMax r data s out.received ∧
        Delivered nMax r s out.received ∧ data.getData = .ok (fetched, types) ∧
        r' = retyped s types ∧
        out = { fetched with warnings := (if r.complete && (DbDataFrame.new (r.factory env) r.names
          nMax r.types).getNcols = 0 then [notSelect] else []) ++ fetched.warnings })
      (fun _ r' => Lost env r r') (fetchRows env nMax r) := by
  rw [fetchRows_eq]
  have hnew : Filling env nMax r (DbDataFrame.new (r.factory env) r.names nMax r.types) r [] :=
    ⟨ahead_refl r, holding_new _ _ _ _, rfl⟩
  refine ends_bind (fetchLoop_spec env nMax hmax r hs hnew) ?_
  rintro data s ⟨rows, hfill, hdelivered⟩
  obtain ⟨out, hdata, -, hreceived, -⟩ := getData_spec hfill.holding hfill.count.le
  rw [hdata]
  refine ⟨data, s, out, _, ?_, ?_, hdata, rfl, rfl⟩
  · change Filling env nMax r data s out.received
    rw [hreceived]
    exact hfill
  · change Delivered nMax r s out.received
    rw [hreceived]
    exact hdelivered

/-- The rows that a fetch returns fix the types that it leaves. -/
theorem fetchRows_fixes (env : Environment) (nMax : Int) (hmax : nMax ≠ 0) (r : SqliteResult σ)
    (hs : Sized r) :
    Ends (fun out r' => ∃ s, Delivered nMax r s out.received ∧
        r' = retyped s (fixedTypes (r.factory env) out.received 0 r.types))
      (fun _ _ => True) (fetchRows env nMax r) := by
  refine ends_mono (fetchRows_filled env nMax hmax r hs) ?_ fun _ _ _ => trivial
  rintro out r' ⟨data, s, fetched, types, hfill, hdelivered, hdata, rfl, -⟩
  obtain rfl := getData_types hfill.holding hfill.count.le hdata
  exact ⟨s, hdelivered, rfl⟩

theorem fetchRows_spec (env : Environment) (nMax : Int) (hmax : nMax ≠ 0) (r : SqliteResult σ)
    (hs : Sized r) :
    Ends (fun out r' => Returned env nMax r r' out) (fun _ r' => Lost env r r')
      (fetchRows env nMax r) := by
  refine ends_mono (fetchRows_filled env nMax hmax r hs) ?_ fun _ _ h => h
  rintro out r' ⟨data, s, fetched, types, hfill, hdelivered, hdata, rfl, hout⟩
  obtain ⟨fetched', hdata', hnames, hreceived, hnrow, hcolumns⟩ :=
    getData_spec hfill.holding hfill.count.le
  obtain ⟨rfl, rfl⟩ := Prod.mk.inj (Except.ok.inj (hdata.symm.trans hdata'))
  have houtNrow : out.nrow = data.i := by rw [hout, hnrow]
  refine ⟨⟨s, _, hdelivered, rfl⟩, ?_, ?_, ?_⟩
  · rw [hout, hnames]
  · rw [houtNrow, hfill.count]
  · rw [houtNrow, ← hcolumns, hout]

/-- A look at the row that is next fixes the types as a fetch of it would. -/
theorem peekFirstRow_fixes (env : Environment) (r : SqliteResult σ) :
    ∃ out rows, peekFirstRow env r = .ok out (retyped r (fixedTypes (r.factory env) rows 0 r.types)) ∧
      out.names = r.names ∧ out.nrow = 0 := by
  have hnew := holding_new (r.factory env) r.names 1 r.types
  cases hc : r.complete with
  | true =>
    obtain ⟨out, hdata, hnames, -, hnrow, -⟩ := getData_spec hnew (Nat.zero_le _)
    refine ⟨out, [], ?_, hnames, hnrow⟩
    simp [peekFirstRow, hc, hdata, liftExcept, retyped]
  | false =>
    obtain ⟨data, hset, hi, hholding⟩ := holding_setColValues hnew r.handle.currentRow
    have hzero : data.i = 0 := hi
    obtain ⟨out, hdata, hnames, -, hnrow, -⟩ := getData_spec hholding (hzero ▸ Nat.zero_le _)
    refine ⟨out, [r.handle.currentRow], ?_, hnames, hnrow.trans hzero⟩
    rw [List.nil_append] at hdata
    simp [peekFirstRow, hc, hset, hdata, liftExcept, retyped]

theorem peekFirstRow_spec (env : Environment) (r : SqliteResult σ) :
    ∃ out types, peekFirstRow env r = .ok out (retyped r types) ∧ out.names = r.names ∧
      out.nrow = 0 := by
  obtain ⟨out, rows, hpeek, hrest⟩ := peekFirstRow_fixes env r
  exact ⟨out, _, hpeek, hrest⟩

theorem getColumnInfo_fixes (env : Environment) (r : SqliteResult σ) :
    ∃ out rows, getColumnInfo env r =
      .ok out (retyped r (fixedTypes (r.factory env) rows 0 r.types)) := by
  obtain ⟨out, rows, hpeek, -⟩ := peekFirstRow_fixes env r
  refine ⟨r.names.zip ((fixedTypes (r.factory env) rows 0 r.types).map columnType), rows, ?_⟩
  rw [getColumnInfo, bind_ok hpeek]
  rfl

theorem getColumnInfo_spec (env : Environment) (r : SqliteResult σ) :
    ∃ out types, getColumnInfo env r = .ok out (retyped r types) := by
  obtain ⟨out, rows, hinfo⟩ := getColumnInfo_fixes env r
  exact ⟨out, _, hinfo⟩

theorem fetch_notReady (env : Environment) (nMax : Int) (r : SqliteResult σ)
    (h : r.ready = false) :
    fetch env nMax r = .error (.stop "Query needs to be bound before fetching") r := by
  simp [fetch, h]

theorem fetch_rows (env : Environment) (nMax : Int) (hmax : nMax ≠ 0) (r : SqliteResult σ)
    (h : r.ready = true) : fetch env nMax r = fetchRows env nMax r := by
  simp [fetch, h, hmax]

theorem fetch_none (env : Environment) (r : SqliteResult σ) (h : r.ready = true) :
    fetch env 0 r = peekFirstRow env r := by
  simp [fetch, h]

end RSQLCipher.Fetching
