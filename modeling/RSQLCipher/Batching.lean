import RSQLCipher.FetchedValues
import RSQLCipher.Sessions

namespace RSQLCipher.Batching

open RSQLCipher.Library RSQLCipher.Values RSQLCipher.Statement RSQLCipher.Params
open RSQLCipher.DataFrame RSQLCipher.ResultImpl RSQLCipher.Stepping RSQLCipher.Course
open RSQLCipher.FrameContents RSQLCipher.Fetching RSQLCipher.Binding RSQLCipher.Sessions
open SqliteResult Session

variable {σ : Type}

/-- The rows delivered and those pending are the true rows. -/
structure OnCourse (s : Session σ) : Prop where
  atRow : AtRow s.result
  truth : s.truth = s.delivered ++ s.result.pending
  nrows : s.result.nrows = s.delivered.length

def Planned (s : Session σ) (groups : List (List Cell)) : Prop :=
  ∃ before, before.length = s.mark ∧ before <+: s.result.handle.begun ∧
    plan s.result = before ++ groups

theorem onCourse_retyped {s : Session σ} (h : OnCourse s) (types : List DataType) :
    OnCourse { s with result := retyped s.result types } := ⟨h.atRow, h.truth, h.nrows⟩

theorem onCourse_fetch {env : Environment} {nMax : Int} {s : Session σ} {r : SqliteResult σ}
    {out : Fetched} (h : OnCourse s) (hr : Returned env nMax s.result r out) :
    OnCourse { s with result := r, delivered := s.delivered ++ out.received } := by
  obtain ⟨t, types, hdelivered, rfl⟩ := hr.delivered
  refine ⟨hdelivered.ahead.atRow h.atRow, ?_, ?_⟩
  · rw [h.truth, hdelivered.ahead.pending, List.append_assoc]
    rfl
  · have hnrows := hdelivered.ahead.kept.nrows
    simp only [retyped, List.length_append] at hnrows ⊢
    rw [hnrows, h.nrows]

theorem onCourse_bound {params : List Param} {s : Session σ} {r : SqliteResult σ}
    (h : Bound params s.result r) : OnCourse (s.bound params (.ok () r)) where
  atRow := h.ready.atRow
  truth := by
    change rowsOf s.result.handle.stmt s.result.handle.db (allGroups params) = [] ++ r.pending
    rw [h.ready.pending, h.stmt, List.nil_append]
  nrows := h.ready.nrows

/-- The rows that follow those delivered, as many as were asked for, in the vectors of their
columns. -/
structure NextRows (env : Environment) (nMax : Int) (s : Session σ) (out : Fetched) : Prop where
  nrow : out.nrow = out.received.length
  received : out.received = takeMax nMax (s.truth.drop s.delivered.length)
  columns : out.columns =
    vectors (s.result.factory env) out.received out.nrow 0 s.result.types

theorem nextRows_iff {env : Environment} {nMax : Int} {s : Session σ} {out : Fetched} :
    NextRows env nMax s out ↔ out.nrow = out.received.length ∧
      out.received = takeMax nMax (s.truth.drop s.delivered.length) ∧
      out.columns = vectors (s.result.factory env) out.received out.nrow 0 s.result.types :=
  ⟨fun h => ⟨h.nrow, h.received, h.columns⟩, fun h => ⟨h.1, h.2.1, h.2.2⟩⟩

instance (env : Environment) (nMax : Int) (s : Session σ) (out : Fetched) :
    Decidable (NextRows env nMax s out) := decidable_of_iff' _ nextRows_iff

theorem nextRows_onCourse {env : Environment} {nMax : Int} {s : Session σ}
    {r : SqliteResult σ} {out : Fetched} (h : OnCourse s) (hr : Returned env nMax s.result r out) :
    NextRows env nMax s out where
  nrow := hr.nrow
  received := by
    obtain ⟨t, types, hdelivered, rfl⟩ := hr.delivered
    rw [h.truth, List.drop_left]
    exact hdelivered.rows
  columns := hr.columns

theorem planned_fetch {env : Environment} {nMax : Int} {s : Session σ} {r : SqliteResult σ}
    {out : Fetched} {groups : List (List Cell)} (h : Planned s groups)
    (hr : Returned env nMax s.result r out) :
    Planned { s with result := r, delivered := s.delivered ++ out.received } groups := by
  obtain ⟨before, hmark, hbefore, hplan⟩ := h
  obtain ⟨t, types, hdelivered, rfl⟩ := hr.delivered
  refine ⟨before, hmark, hbefore.trans hdelivered.ahead.kept.begun, ?_⟩
  change plan t = before ++ groups
  rw [hdelivered.ahead.plan, hplan]

theorem planned_bound {params : List Param} {s : Session σ} {r : SqliteResult σ}
    (h : Bound params s.result r) : Planned (s.bound params (.ok () r)) (allGroups params) :=
  ⟨s.result.handle.begun, rfl, h.ready.begun, h.ready.plan⟩

def AllBound (params : List Param) : Prop :=
  ∀ g < groupCount params, groupBindings params g ≠ none

theorem boundGroups_getElem (params : List Param) (group n : Nat)
    (h : ∀ g, group ≤ g → g < group + n → groupBindings params g ≠ none) :
    (boundGroups params group n).length = n ∧
      ∀ i < n, (boundGroups params group n)[i]? = groupBindings params (group + i) := by
  induction n generalizing group with
  | zero => exact ⟨rfl, fun i hi => absurd hi (Nat.not_lt_zero i)⟩
  | succ n ih =>
    cases hb : groupBindings params group with
    | none => exact absurd hb (h group le_rfl (by omega))
    | some b =>
      obtain ⟨hlen, hget⟩ := ih (group + 1) (fun g hg hlt => h g (by omega) (by omega))
      rw [boundGroups, hb]
      refine ⟨by simp [hlen], ?_⟩
      intro i hi
      cases i with
      | zero => exact hb.symm
      | succ i =>
        have hnext := hget i (by omega)
        rw [Nat.add_assoc, Nat.add_comm 1 i] at hnext
        exact hnext

theorem allGroups_getElem {params : List Param} (h : AllBound params) :
    (allGroups params).length = groupCount params ∧
      ∀ g < groupCount params, (allGroups params)[g]? = groupBindings params g := by
  have hall := boundGroups_getElem params 0 (groupCount params)
    (fun g _ hlt => h g (by omega))
  simpa only [Nat.zero_add, allGroups] using hall

structure Undisturbed (env : Environment) (s : Session σ) : Prop where
  sized : Sized s.result
  onCourse : s.result.ready = true → OnCourse s
  planned : s.result.ready = true → Planned s s.groups
  noFailure : s.result.ready = true → NoFailure env s.result

def Bindable (c : Call) : Prop := ∀ params, c = .bind params → AllBound params

theorem noFailure_bound {env : Environment} (hcalls : ∀ k, env.fails k = none)
    {params : List Param} (hall : AllBound params) {r : SqliteResult σ}
    (hvalues : r.params = params) (hgroups : r.groups = groupCount params) : NoFailure env r where
  calls := hcalls
  bound := by
    rw [hvalues, hgroups]
    exact hall

theorem undisturbed_next {env : Environment} (hcalls : ∀ k, env.fails k = none) (s : Session σ)
    (c : Call) (h : Undisturbed env s) (hc : Bindable c) : Undisturbed env (s.next env c) := by
  have hmove := next_move env s h.sized c
  have hsized := sized_move h.sized hmove
  generalize hs' : s.next env c = s' at hmove hsized
  cases hmove with
  | same => exact h
  | retyped c types =>
    refine ⟨hsized, fun hready => onCourse_retyped (h.onCourse hready) types, h.planned, ?_⟩
    exact fun hready => ⟨(h.noFailure hready).calls, (h.noFailure hready).bound⟩
  | bound params r ha hb =>
    exact ⟨hsized, fun _ => onCourse_bound hb, fun _ => planned_bound hb,
      fun _ => noFailure_bound hcalls (hc params rfl) hb.values hb.groups⟩
  | bindFailed params r ha hb =>
    exact absurd (noFailure_bound hcalls (hc params rfl) hb.values hb.groups) hb.cause
  | returned nMax hmax hready out r hr =>
    refine ⟨hsized, fun _ => onCourse_fetch (h.onCourse hready) hr,
      fun _ => planned_fetch (h.planned hready) hr, fun _ => ?_⟩
    obtain ⟨t, types, hdelivered, rfl⟩ := hr.delivered
    have hno := h.noFailure hready
    have hkept := noFailure_kept (r := { s.result with nrows := s.result.nrows +
      out.received.length }) ⟨hno.calls, hno.bound⟩ hdelivered.ahead.kept
    exact ⟨hkept.calls, hkept.bound⟩
  | lost nMax hmax hready r hl => exact absurd (h.noFailure hready) hl.cause

theorem onCourse_started {stmt : Stmt σ} {db : σ} {s : Session σ} (h : Started stmt db s)
    (hready : s.result.ready = true) : OnCourse s := by
  cases h with
  | unbound => cases hready
  | query h0 r hr _ hstmt =>
    refine ⟨hr.atRow, ?_, hr.nrows⟩
    simp only [opened, h0, if_true, List.nil_append]
    rw [hr.pending, hstmt]

theorem undisturbed_started {env : Environment} (hcalls : ∀ k, env.fails k = none)
    {stmt : Stmt σ} {db : σ} {s : Session σ} (h : Started stmt db s) : Undisturbed env s := by
  refine ⟨sized_started h, onCourse_started h, fun hready => ?_, fun hready => ⟨hcalls, ?_⟩⟩
  · cases h with
    | unbound => cases hready
    | query h0 r hr =>
      refine ⟨[], rfl, List.nil_prefix, ?_⟩
      simp only [opened, h0, if_true]
      exact hr.plan
  · cases h with
    | unbound => cases hready
    | query h0 r hr hgroups =>
      change ∀ g < r.groups, groupBindings r.params g ≠ none
      rw [hgroups]
      exact fun g hg => absurd hg (Nat.not_lt_zero g)

theorem exists_start {env : Environment} (hcalls : ∀ k, env.fails k = none)
    (stmt : Stmt σ) (db : σ) (totalChanges : Nat) (withAltTypes : Bool) :
    ∃ s, start env stmt db totalChanges withAltTypes = some s := by
  cases hrun : create env (initial stmt db totalChanges withAltTypes) with
  | ok u r => exact ⟨opened stmt db r, by simp only [start, hrun]⟩
  | error e r =>
    by_cases h0 : stmt.parameters = []
    · have hcreate := create_spec env stmt db totalChanges withAltTypes h0
      rw [hrun] at hcreate
      obtain ⟨k, hk⟩ := hcreate
      exact absurd (hcalls k) hk
    · rw [create_params env _ (by simpa [nparams, initial, Handle.prepared] using h0)] at hrun
      cases hrun

/-- What a call does in a session in which nothing fails: an accepted binding returns and
is of all its groups, and a fetch returns the next rows. -/
def Exact (env : Environment) (s : Session σ) : Call → Prop
  | .bind params => Accepts s.result params →
      (∃ r, dbBind env params s.result = .ok () r) ∧
        (allGroups params).length = groupCount params ∧
        ∀ g < groupCount params, (allGroups params)[g]? = groupBindings params g
  | .fetch nMax => s.result.ready = true → ∃ out r, fetch env nMax s.result = .ok out r ∧
      (nMax ≠ 0 → NextRows env nMax s out)
  | .getColumnInfo => ∃ out r, getColumnInfo env s.result = .ok out r

structure InOrder (s : Session σ) : Prop where
  delivered : s.delivered <+: s.truth
  begun : s.begun <+: s.groups
  complete : s.result.complete = true ↔ s.delivered = s.truth ∧ s.begun = s.groups

/-- All that a result says of itself is right, with the number of rows. -/
structure Consistent (s : Session σ) : Prop where
  inOrder : InOrder s
  nrows : s.result.nRowsFetched = s.delivered.length

/-- The `int` is the number of increments up to the largest `int`. -/
theorem nRowsFetched_iff (r : SqliteResult σ) : r.nRowsFetched = r.nrows ↔ r.nrows < 2 ^ 31 := by
  have hbound : r.nRowsFetched < 2 ^ 31 := Int.bmod_lt (by decide)
  constructor
  · intro heq
    rw [heq] at hbound
    exact_mod_cast hbound
  · intro hlt
    exact Int.bmod_eq_of_le (by omega) (by omega)

theorem exact_undisturbed {env : Environment} (hcalls : ∀ k, env.fails k = none) (s : Session σ)
    (c : Call) (h : Undisturbed env s) (hc : Bindable c) : Exact env s c := by
  cases c with
  | getColumnInfo =>
    obtain ⟨out, types, hrun⟩ := getColumnInfo_spec env s.result
    exact ⟨out, _, hrun⟩
  | bind params =>
    intro ha
    refine ⟨?_, allGroups_getElem (hc params rfl)⟩
    have hbind := dbBind_spec env params s.result h.sized ha
    cases hrun : dbBind env params s.result with
    | ok u r => exact ⟨r, rfl⟩
    | error e r =>
      rw [hrun] at hbind
      exact absurd (noFailure_bound hcalls (hc params rfl) hbind.values hbind.groups) hbind.cause
  | fetch nMax =>
    intro hready
    by_cases hmax : nMax = 0
    · obtain ⟨out, types, hrun, -⟩ := next_fetch_none env s hready
      rw [hmax]
      exact ⟨out, _, hrun, fun h0 => absurd rfl h0⟩
    · have hfetch := fetch_spec env nMax hmax s.result h.sized hready
      cases hrun : fetch env nMax s.result with
      | ok out r =>
        rw [hrun] at hfetch
        exact ⟨out, r, rfl, fun _ => nextRows_onCourse (h.onCourse hready) hfetch⟩
      | error e r =>
        rw [hrun] at hfetch
        exact absurd (h.noFailure hready) hfetch.cause

theorem inOrder_undisturbed {env : Environment} {s : Session σ} (h : Undisturbed env s)
    (hready : s.result.ready = true) : InOrder s := by
  have hcourse := h.onCourse hready
  obtain ⟨before, hmark, hbefore, hplan⟩ := h.planned hready
  have hprefix : s.begun <+: s.groups := by
    have hbegun := begun_prefix_plan s.result
    rw [hplan] at hbegun
    have hdrop := hbegun.drop s.mark
    rw [← hmark, List.drop_left, hmark] at hdrop
    exact hdrop
  refine ⟨⟨_, hcourse.truth.symm⟩, hprefix, ?_⟩
  constructor
  · intro hc
    refine ⟨?_, ?_⟩
    · rw [hcourse.truth, pending_complete hc, List.append_nil]
    · rw [plan_complete hc] at hplan
      rw [begun, hplan, ← hmark, List.drop_left]
  · rintro ⟨hdelivered, -⟩
    have htruth := hcourse.truth
    rw [← hdelivered, List.self_eq_append_right] at htruth
    cases hc : s.result.complete with
    | true => rfl
    | false =>
      rw [pending_running hc] at htruth
      cases htruth

theorem consistent_undisturbed {env : Environment} {s : Session σ} (h : Undisturbed env s)
    (hready : s.result.ready = true) : Consistent s ↔ s.delivered.length < 2 ^ 31 := by
  have hcourse := h.onCourse hready
  rw [← hcourse.nrows, ← nRowsFetched_iff]
  constructor
  · intro hc
    rw [hc.nrows, hcourse.nrows]
  · intro heq
    exact ⟨inOrder_undisturbed h hready, by rw [heq, hcourse.nrows]⟩

/-- Batching does not matter: in every session in which nothing fails, a fetch returns
the next of the true rows, as many as were asked for, and the result is complete exactly
when all groups were executed and all rows delivered. The number of rows is right as long
as it is an `int`. -/
theorem fetch_batches (env : Environment) (hcalls : ∀ k, env.fails k = none) (stmt : Stmt σ)
    (db : σ) (totalChanges : Nat) (withAltTypes : Bool) (calls : List Call)
    (hbind : ∀ c ∈ calls, Bindable c) :
    ∃ s, start env stmt db totalChanges withAltTypes = some s ∧
      Along (next env) (Exact env) s calls ∧
      ((runCalls (next env) s calls).result.ready = true →
        InOrder (runCalls (next env) s calls) ∧
        (Consistent (runCalls (next env) s calls) ↔
          (runCalls (next env) s calls).delivered.length < 2 ^ 31)) := by
  obtain ⟨s, hs⟩ := exists_start hcalls stmt db totalChanges withAltTypes
  have hinv := undisturbed_started hcalls (started_start hs)
  have halong := along_of_forall (next env) s calls hbind
  have hfinal := invariant_runCalls _ (undisturbed_next hcalls) hinv calls halong
  refine ⟨s, hs, ?_, fun hready => ⟨?_, ?_⟩⟩
  · exact along_of_invariant (undisturbed_next hcalls) (exact_undisturbed hcalls) hinv calls halong
  · exact inOrder_undisturbed hfinal hready
  · exact consistent_undisturbed hfinal hready

def calm : Environment where
  access := FetchedValues.directAccess
  parsers := ⟨fun _ => none, fun _ => none, fun _ => none⟩
  fails _ := none

def echo : Stmt Unit where
  columns := [("x", none)]
  parameters := [none]
  run _ b := { rows := [b], db := (), changes := 0 }

theorem fetch_batches_echo :
    ∃ s, start calm echo () 0 false = some s ∧
      Along (next calm) (Exact calm) s [.bind [.int [7, 8]], .fetch 1, .getColumnInfo, .fetch (-1)] ∧
      ((runCalls (next calm) s [.bind [.int [7, 8]], .fetch 1, .getColumnInfo,
          .fetch (-1)]).result.ready = true →
        InOrder (runCalls (next calm) s [.bind [.int [7, 8]], .fetch 1, .getColumnInfo,
          .fetch (-1)]) ∧
        (Consistent (runCalls (next calm) s [.bind [.int [7, 8]], .fetch 1, .getColumnInfo,
          .fetch (-1)]) ↔ (runCalls (next calm) s [.bind [.int [7, 8]], .fetch 1, .getColumnInfo,
          .fetch (-1)]).delivered.length < 2 ^ 31)) := by
  apply fetch_batches calm (fun _ => rfl) echo () 0 false
  rintro c hc params rfl
  simp only [List.mem_cons, Call.bind.injEq, reduceCtorEq, List.not_mem_nil, or_false] at hc
  subst hc
  unfold AllBound
  decide

section Overflow

/-- A fetch of some rows, where nothing fails, delivers the next of the true rows. -/
theorem fetched_undisturbed {env : Environment} {s : Session σ} {nMax : Int}
    (h : Undisturbed env s) (hready : s.result.ready = true) (hmax : nMax ≠ 0) :
    (s.next env (.fetch nMax)).result.ready = true ∧
      (s.next env (.fetch nMax)).truth = s.truth ∧
      (s.next env (.fetch nMax)).delivered =
        s.delivered ++ takeMax nMax (s.truth.drop s.delivered.length) := by
  have hfetch := fetch_spec env nMax hmax s.result h.sized hready
  cases hrun : fetch env nMax s.result with
  | error e r =>
    rw [hrun] at hfetch
    exact absurd (h.noFailure hready) hfetch.cause
  | ok out r =>
    rw [hrun] at hfetch
    rw [next_fetch_ok env nMax hmax s hrun]
    refine ⟨?_, rfl, ?_⟩
    · obtain ⟨t, types, hdelivered, rfl⟩ := hfetch.delivered
      exact hdelivered.ahead.kept.ready.trans hready
    · rw [(nextRows_onCourse (h.onCourse hready) hfetch).received]

/-- A query with a number of rows. -/
def manyRows (n : Nat) : Stmt Unit where
  columns := [("x", none)]
  parameters := []
  run _ _ := { rows := List.replicate n [.integer 0], db := (), changes := 0 }

/-- Two halves of the rows of a query are all of its rows. -/
theorem delivered_halves {n : Nat} (hn : n ≠ 0) {s : Session Unit}
    (hs : start calm (manyRows (n + n)) () 0 false = some s) :
    (runCalls (next calm) s [.fetch n, .fetch n]).result.ready = true ∧
      (runCalls (next calm) s [.fetch n, .fetch n]).delivered.length = n + n := by
  have hcalls : ∀ k, calm.fails k = none := fun _ => rfl
  have hstarted := started_start hs
  have hopen : s.result.ready = true ∧ s.truth = List.replicate (n + n) [.integer 0] ∧
      s.delivered = [] := by
    cases hstarted with
    | query h0 r hr => exact ⟨hr.ready, by simp [opened, rowsOf, manyRows], rfl⟩
    | unbound h0 => exact absurd rfl h0
  obtain ⟨hready, htruth, hdelivered⟩ := hopen
  have hinv := undisturbed_started hcalls hstarted
  have hmax : (n : Int) ≠ 0 := by omega
  obtain ⟨hready', htruth', hdelivered'⟩ := fetched_undisturbed hinv hready hmax
  have hinv' := undisturbed_next hcalls s (.fetch n) hinv (by rintro params ⟨⟩)
  obtain ⟨hready'', -, hdelivered''⟩ := fetched_undisturbed hinv' hready' hmax
  refine ⟨hready'', ?_⟩
  change (next calm (next calm s (.fetch n)) (.fetch n)).delivered.length = n + n
  rw [hdelivered'', htruth', hdelivered', hdelivered, htruth]
  have hpos : ¬(n : Int) < 0 := by omega
  simp [takeMax, hpos]

/-- Two fetches of `2 ^ 30` rows each: the number of rows has overflowed. -/
theorem row_count_overflows :
    ¬∀ (env : Environment) (stmt : Stmt Unit) (calls : List Call), (∀ k, env.fails k = none) →
      (∀ c ∈ calls, Bindable c) →
      ∃ s, start env stmt () 0 false = some s ∧ Along (next env) (Exact env) s calls ∧
        ((runCalls (next env) s calls).result.ready = true →
          Consistent (runCalls (next env) s calls)) := by
  intro h
  have hcalls : ∀ k, calm.fails k = none := fun _ => rfl
  have hbind : ∀ c ∈ [Call.fetch (2 ^ 30 : Nat), .fetch (2 ^ 30 : Nat)], Bindable c := by
    rintro c hc params rfl
    simp at hc
  obtain ⟨s, hs, -, hconsistent⟩ := h calm (manyRows (2 ^ 30 + 2 ^ 30)) _ hcalls hbind
  obtain ⟨hready, hlength⟩ := delivered_halves (n := 2 ^ 30) (by decide) hs
  have hinv := invariant_runCalls _ (undisturbed_next hcalls)
    (undisturbed_started hcalls (started_start hs)) _ (along_of_forall _ s _ hbind)
  have hlt := (consistent_undisturbed hinv hready).mp (hconsistent hready)
  rw [hlength] at hlt
  omega

end Overflow

end RSQLCipher.Batching
