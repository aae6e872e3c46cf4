import RSQLCipher.Fetching

namespace RSQLCipher.Binding

open RSQLCipher.Library RSQLCipher.Values RSQLCipher.Statement RSQLCipher.Params
open RSQLCipher.ResultImpl RSQLCipher.Stepping RSQLCipher.Course RSQLCipher.Fetching SqliteResult

variable {σ : Type}

def groupCount (params : List Param) : Nat := (params.head?.map Param.length).getD 0

/-- The groups of a list of parameter vectors, up to the first that cannot be bound. -/
def allGroups (params : List Param) : List (List Cell) := boundGroups params 0 (groupCount params)

def Accepts (r : SqliteResult σ) (params : List Param) : Prop :=
  validateParams params = .ok () ∧ r.nparams ≠ 0 ∧ params.length = r.nparams

instance (r : SqliteResult σ) (params : List Param) : Decidable (Accepts r params) :=
  match h : validateParams params with
  | .ok () => decidable_of_iff (r.nparams ≠ 0 ∧ params.length = r.nparams) (by simp [Accepts, h])
  | .error e => .isFalse (by simp [Accepts, h])

def withParams (r : SqliteResult σ) (params : List Param) : SqliteResult σ :=
  { r with
    params := params
    groups := groupCount params
    group := 0
    totalChangesStart := r.handle.totalChanges }

theorem dbBind_refused (env : Environment) (params : List Param) (r : SqliteResult σ)
    (h : ¬Accepts r params) : ∃ e, dbBind env params r = .error e r := by
  cases hv : validateParams params with
  | error e => exact ⟨e, by simp [dbBind, hv, liftExcept]⟩
  | ok u =>
    by_cases h0 : r.nparams = 0
    · refine ⟨.stop "Query does not require parameters.", ?_⟩
      simp [dbBind, hv, liftExcept, SqliteResult.bind, h0]
    · have hlen : params.length ≠ r.nparams := fun hlen => h ⟨hv, h0, hlen⟩
      exact ⟨_, by simp [dbBind, hv, liftExcept, SqliteResult.bind, h0, hlen]; rfl⟩

theorem dbBind_accepted (env : Environment) (params : List Param) (r : SqliteResult σ)
    (h : Accepts r params) :
    dbBind env params r = (do
      let hasParams ← bindRow env
      afterBind env hasParams : ResultM σ Unit) (withParams r params) := by
  obtain ⟨hv, h0, hlen⟩ := h
  simp [dbBind, hv, liftExcept, SqliteResult.bind, h0, hlen, withParams, groupCount]

def initialized (r : SqliteResult σ) (paramsHaveRows : Bool) : SqliteResult σ :=
  { r with ready := true, nrows := 0, complete := !paramsHaveRows }

theorem sized_initialized {r : SqliteResult σ} (hs : Sized r) (paramsHaveRows : Bool) :
    Sized (initialized r paramsHaveRows) := ⟨hs.bindings, hs.params⟩

/-- A result whose groups are all ahead of it, from some database on. -/
structure Ready (db : σ) (before groups : List (List Cell)) (r : SqliteResult σ) : Prop where
  sized : Sized r
  ready : r.ready = true
  nrows : r.nrows = 0
  begun : before <+: r.handle.begun
  atRow : AtRow r
  pending : r.pending = rowsOf r.handle.stmt db groups
  plan : plan r = before ++ groups
  planDb : planDb r = dbAfter r.handle.stmt db groups

theorem afterBind_spec (env : Environment) (r : SqliteResult σ) (hs : Sized r)
    (hcursor : r.handle.cursor = none) :
    Ends (fun _ r' => Kept (initialized r true) r' ∧
        Ready r.handle.db r.handle.begun (r.handle.bindings :: r.laterGroups) r')
      (fun _ r' => Kept (initialized r true) r' ∧ Failed env (initialized r true) r')
      (afterBind env true r) := by
  have hrun : afterBind env true r = step env (initialized r true) := by
    simp [afterBind, init, initialized]
  have hqueue : (initialized r true).queue = r.handle.bindings :: r.laterGroups := by
    simp only [queue, initialized, hcursor]
    rfl
  have hexec : executions (initialized r true) =
      r.handle.begun ++ (r.handle.bindings :: r.laterGroups) := by
    rw [executions, hqueue]
    rfl
  have hup : (initialized r true).upcoming =
      rowsOf r.handle.stmt r.handle.db (r.handle.bindings :: r.laterGroups) := by
    rw [upcoming, hqueue]
    simp [initialized, hcursor]
  have hdb : finalDb (initialized r true) =
      dbAfter r.handle.stmt r.handle.db (r.handle.bindings :: r.laterGroups) := by
    rw [finalDb, hqueue]
    rfl
  rw [hrun]
  refine ends_mono (step_spec env (initialized r true) (sized_initialized hs true) rfl) ?_
    (fun _ _ h => h)
  rintro - r' ⟨hkept, hreached⟩
  have hstmt : r'.handle.stmt = r.handle.stmt := hkept.stmt
  obtain ⟨hplan, hplanDb⟩ := plan_reached rfl hreached
  have hrunning : (initialized r true).complete = false := rfl
  refine ⟨hkept, sized_kept (sized_initialized hs true) hkept, hkept.ready,
    hkept.nrows, hkept.begun, atRow_reached hreached, ?_, ?_, ?_⟩
  · rw [pending_reached hreached, hup, hstmt]
  · rw [hplan, plan, hrunning, ← hexec]
    rfl
  · rw [hplanDb, planDb, hrunning, hstmt, ← hdb]
    rfl

/-- A call of `bind` that raises after its checks: no row is current, and unless the
first group was being bound, the result counts as ready and not complete. -/
structure BindFailed (env : Environment) (params : List Param) (r r' : SqliteResult σ) : Prop where
  sized : Sized r'
  stmt : r'.handle.stmt = r.handle.stmt
  values : r'.params = params
  groups : r'.groups = groupCount params
  cursor : r'.handle.cursor = none
  begun : r'.handle.begun <+: r.handle.begun ++ allGroups params
  log : r.handle.begun <+: r'.handle.begun
  flags : r'.ready = r.ready ∧ r'.complete = r.complete ∧ r'.nrows = r.nrows ∨
    r'.ready = true ∧ r'.complete = false
  cause : ¬NoFailure env r'

structure Bound (params : List Param) (r r' : SqliteResult σ) : Prop where
  ready : Ready r.handle.db r.handle.begun (allGroups params) r'
  stmt : r'.handle.stmt = r.handle.stmt
  values : r'.params = params
  groups : r'.groups = groupCount params

theorem allGroups_cons {params : List Param} {b : List Cell} (h : 0 < groupCount params)
    (hb : groupBindings params 0 = some b) :
    allGroups params = b :: boundGroups params 1 (groupCount params - 1) := by
  have hcount : groupCount params = groupCount params - 1 + 1 := by omega
  rw [allGroups, hcount, boundGroups, hb]
  rfl

theorem sized_withParams {r : SqliteResult σ} {params : List Param} (hs : Sized r)
    (h : Accepts r params) : Sized (withParams r params) :=
  ⟨hs.bindings, .inr h.2.2⟩

theorem dbBind_empty (env : Environment) (params : List Param) (r : SqliteResult σ)
    (hs : Sized r) (h : Accepts r params) (hcount : groupCount params = 0) :
    ∃ r', dbBind env params r = .ok () r' ∧ Bound params r r' := by
  have hrow : bindRow env (withParams r params) = .ok false (withParams r params) :=
    bindRow_last env _ (by simp [withParams, hcount])
  have hgroups : allGroups params = [] := by
    rw [allGroups, hcount]
    rfl
  refine ⟨initialized (withParams r params) false, ?_, ?_⟩
  · rw [dbBind_accepted env params r h, bind_ok hrow]
    simp [afterBind, init, initialized]
  · refine ⟨⟨?_, rfl, rfl, List.prefix_refl _, .inl rfl, ?_, ?_, ?_⟩, rfl, rfl, rfl⟩
    · exact ⟨hs.bindings, .inl hcount⟩
    · rw [pending_complete rfl, hgroups]
      rfl
    · rw [hgroups, List.append_nil]
      rfl
    · rw [hgroups]
      rfl

/-- A call of `bind` that is accepted: it comes to the first row of the first group that
has one, or it raises. -/
theorem dbBind_spec (env : Environment) (params : List Param) (r : SqliteResult σ)
    (hs : Sized r) (h : Accepts r params) :
    Ends (fun _ r' => Bound params r r') (fun _ r' => BindFailed env params r r')
      (dbBind env params r) := by
  by_cases hcount : groupCount params = 0
  · obtain ⟨r', hr', hbound⟩ := dbBind_empty env params r hs h hcount
    rw [hr']
    exact hbound
  · have hpos : 0 < groupCount params := Nat.pos_of_ne_zero hcount
    have hsized := sized_withParams hs h
    rw [dbBind_accepted env params r h]
    refine ends_bind (ends_mono (bindRow_spec env (withParams r params) hsized hpos)
      (fun _ _ hrow => hrow) ?_) ?_
    · rintro - r' ⟨hcause, bindings, k, hwidth, rfl⟩
      refine ⟨⟨hwidth.trans hs.bindings, hsized.params⟩, rfl, rfl, rfl, rfl, ?_,
        List.prefix_refl _, .inl ⟨rfl, rfl, rfl⟩, not_noFailure (g := 0) hcause hpos⟩
      exact List.prefix_append _ _
    · rintro - r' ⟨rfl, b, k, hb, rfl⟩
      have hall : allGroups params = b :: boundGroups params 1 (groupCount params - 1) :=
        allGroups_cons hpos hb
      have hlen : b.length = r.nparams := (length_groupBindings hb).trans h.2.2
      have hsized' : Sized (withBindings { withParams r params with
          handle := (withParams r params).handle.sqlite3Reset } b k) := ⟨hlen, hsized.params⟩
      refine ends_mono (afterBind_spec env _ hsized' rfl) ?_ ?_
      · rintro - r' ⟨hkept, hready⟩
        refine ⟨?_, hkept.stmt, hkept.params, hkept.groups⟩
        rw [hall]
        exact hready
      · rintro - r' ⟨hkept, hfailed⟩
        refine ⟨sized_kept (sized_initialized hsized' true) hkept, hkept.stmt, hkept.params,
          hkept.groups, hfailed.cursor, ?_, hkept.begun, .inr ⟨hkept.ready, hfailed.running⟩, ?_⟩
        · rw [hall]
          exact hfailed.begun
        · intro hno
          refine hfailed.cause ⟨hno.calls, ?_⟩
          have hbound := hno.bound
          rw [hkept.groups, hkept.params] at hbound
          exact hbound

theorem sized_initial (stmt : Stmt σ) (db : σ) (totalChanges : Nat) (withAltTypes : Bool) :
    Sized (initial stmt db totalChanges withAltTypes) :=
  ⟨List.length_replicate, .inl rfl⟩

theorem create_params (env : Environment) (r : SqliteResult σ) (h : r.nparams ≠ 0) :
    create env r = .ok () r := by
  simp [create, h]

theorem create_query (env : Environment) {stmt : Stmt σ} (db : σ) (totalChanges : Nat)
    (withAltTypes : Bool) (h0 : stmt.parameters = []) :
    create env (initial stmt db totalChanges withAltTypes) =
      afterBind env true (initial stmt db totalChanges withAltTypes) := by
  simp [create, nparams, initial, Handle.prepared, h0]

theorem create_spec (env : Environment) (stmt : Stmt σ) (db : σ) (totalChanges : Nat)
    (withAltTypes : Bool) (h0 : stmt.parameters = []) :
    Ends (fun _ r => Ready db [] [[]] r ∧ r.groups = 0 ∧ r.handle.stmt = stmt)
      (fun _ _ => ∃ k, env.fails k ≠ none)
      (create env (initial stmt db totalChanges withAltTypes)) := by
  have hbindings : (initial stmt db totalChanges withAltTypes).handle.bindings = [] := by
    simp [initial, Handle.prepared, h0]
  rw [create_query env db totalChanges withAltTypes h0]
  refine ends_mono (afterBind_spec env _ (sized_initial stmt db totalChanges withAltTypes) rfl) ?_ ?_
  · rintro - r ⟨hkept, hready⟩
    rw [hbindings] at hready
    exact ⟨hready, hkept.groups, hkept.stmt⟩
  · rintro - r ⟨-, hfailed⟩
    by_contra hnone
    push Not at hnone
    exact hfailed.cause ⟨hnone, fun g hg => absurd hg (Nat.not_lt_zero g)⟩

end RSQLCipher.Binding
