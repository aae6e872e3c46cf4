import RSQLCipher.AfterErrors

namespace RSQLCipher.GroupOrder

open RSQLCipher.Library RSQLCipher.Values RSQLCipher.Statement RSQLCipher.Params
open RSQLCipher.DataFrame RSQLCipher.ResultImpl RSQLCipher.Stepping RSQLCipher.Course
open RSQLCipher.Fetching RSQLCipher.Binding RSQLCipher.Sessions RSQLCipher.Batching
open RSQLCipher.AfterErrors SqliteResult Session

variable {σ : Type}

/-- The executions since the last accepted binding are of its groups 0, 1, 2, ..., each
with all parameters bound to the elements of its group. -/
def InOrder (s : Session σ) : Prop :=
  ∀ i < s.begun.length, i < s.result.groups ∧
    groupBindings s.result.params i = s.begun[i]? ∧
    (s.begun[i]?).map List.length = some s.result.nparams

instance (s : Session σ) : Decidable (InOrder s) :=
  inferInstanceAs (Decidable (∀ i < s.begun.length, i < s.result.groups ∧
    groupBindings s.result.params i = s.begun[i]? ∧
    (s.begun[i]?).map List.length = some s.result.nparams))

def RowThere (s : Session σ) : Call → Prop
  | .fetch nMax => nMax ≠ 0 → s.result.ready = true → AtRow s.result
  | .bind _ | .getColumnInfo => True

instance (s : Session σ) : (c : Call) → Decidable (RowThere s c)
  | .fetch nMax => inferInstanceAs (Decidable (nMax ≠ 0 → s.result.ready = true → AtRow s.result))
  | .bind _ | .getColumnInfo => .isTrue trivial

theorem boundGroups_bound {params : List Param} {group n i : Nat} {b : List Cell}
    (h : (boundGroups params group n)[i]? = some b) :
    i < n ∧ groupBindings params (group + i) = some b := by
  induction n generalizing group i with
  | zero => simp [boundGroups] at h
  | succ n ih =>
    cases hb : groupBindings params group with
    | none => simp [boundGroups, hb] at h
    | some b' =>
      rw [boundGroups, hb] at h
      cases i with
      | zero =>
        cases h
        exact ⟨Nat.zero_lt_succ n, hb⟩
      | succ i =>
        obtain ⟨hlt, hbound⟩ := ih h
        refine ⟨Nat.succ_lt_succ hlt, ?_⟩
        rw [← hbound]
        congr 1
        omega

/-- What has begun since the last accepted binding, and what lies ahead of a result that
has a row, are its groups in order. -/
structure Orderly (s : Session σ) : Prop where
  sized : Sized s.result
  groups : s.result.groups = groupCount s.result.params
  log : ∃ before, before.length = s.mark ∧ before <+: s.result.handle.begun ∧
    s.result.handle.begun <+: before ++ allGroups s.result.params ∧
    (s.result.ready = true → AtRow s.result →
      plan s.result <+: before ++ allGroups s.result.params)

theorem inOrder_orderly {s : Session σ} (h : Orderly s) : InOrder s := by
  obtain ⟨before, hmark, -, hbegun, -⟩ := h.log
  have hdrop := hbegun.drop s.mark
  rw [← hmark, List.drop_left, hmark] at hdrop
  intro i hi
  have hget : s.begun[i]? = some s.begun[i] := List.getElem?_eq_getElem hi
  have hall : (allGroups s.result.params)[i]? = some s.begun[i] := by
    obtain ⟨rest, hrest⟩ := hdrop
    rw [← hget, ← hrest]
    exact List.getElem?_append_left hi
  obtain ⟨hlt, hb⟩ := boundGroups_bound hall
  rw [Nat.zero_add] at hb
  rw [h.groups, hget]
  refine ⟨hlt, hb, ?_⟩
  have hpos : s.result.groups ≠ 0 := by
    rw [h.groups]
    omega
  rw [Option.map_some, length_groupBindings hb, h.sized.params.resolve_left hpos]

/-- A binding starts the groups of its own parameters. -/
theorem orderly_rebound {s s' : Session σ} {params : List Param} (hsized : Sized s'.result)
    (hmark : s'.mark = s.result.handle.begun.length) (hvalues : s'.result.params = params)
    (hgroups : s'.result.groups = groupCount params)
    (hlog : s.result.handle.begun <+: s'.result.handle.begun)
    (hbegun : s'.result.handle.begun <+: s.result.handle.begun ++ allGroups params)
    (hplan : AtRow s'.result → plan s'.result <+: s.result.handle.begun ++ allGroups params) :
    Orderly s' := by
  subst hvalues
  exact ⟨hsized, hgroups, s.result.handle.begun, hmark.symm, hlog, hbegun, fun _ => hplan⟩

/-- A fetch goes on with the groups that there are. -/
theorem orderly_fetched {s s' : Session σ} (h : Orderly s) (hready : s.result.ready = true)
    (hrow : AtRow s.result) (hsized : Sized s'.result) (hmark : s'.mark = s.mark)
    (hparams : s'.result.params = s.result.params) (hgroups : s'.result.groups = s.result.groups)
    (hlog : s.result.handle.begun <+: s'.result.handle.begun)
    (hbegun : s'.result.handle.begun <+: plan s.result)
    (hplan : AtRow s'.result → plan s'.result = plan s.result) : Orderly s' := by
  obtain ⟨before, hlength, hbefore, -, hahead⟩ := h.log
  have hscheduled := hahead hready hrow
  rw [← hparams] at hscheduled
  refine ⟨hsized, ?_, before, hlength.trans hmark.symm, hbefore.trans hlog,
    hbegun.trans hscheduled, fun _ hrow' => ?_⟩
  · rw [hgroups, hparams, h.groups]
  · rw [hplan hrow']
    exact hscheduled

theorem orderly_next (env : Environment) (s : Session σ) (c : Call) (h : Orderly s)
    (hc : RowThere s c) : Orderly (s.next env c) := by
  have hmove := next_move env s h.sized c
  have hsized := sized_move h.sized hmove
  generalize s.next env c = s' at hmove hsized
  cases hmove with
  | same => exact h
  | retyped c types => exact ⟨hsized, h.groups, h.log⟩
  | bound params r ha hb =>
    have hbegun := begun_prefix_plan r
    rw [hb.ready.plan] at hbegun
    exact orderly_rebound hsized rfl hb.values hb.groups hb.ready.begun hbegun
      fun _ => hb.ready.plan ▸ List.prefix_refl _
  | bindFailed params r ha hb =>
    refine orderly_rebound hsized rfl hb.values hb.groups hb.log hb.begun ?_
    rintro (hcomplete | ⟨c, hcursor⟩)
    · change plan r <+: s.result.handle.begun ++ allGroups params
      rw [plan_complete hcomplete]
      exact hb.begun
    · rw [hb.cursor] at hcursor
      cases hcursor
  | returned nMax hmax hready out r hr =>
    obtain ⟨t, types, hdelivered, rfl⟩ := hr.delivered
    have hkept := hdelivered.ahead.kept
    have hplan := hdelivered.ahead.plan
    exact orderly_fetched h hready (hc hmax hready) hsized rfl hkept.params hkept.groups hkept.begun
      (hplan ▸ begun_prefix_plan t) fun _ => hplan
  | lost nMax hmax hready r hl =>
    obtain ⟨m, hkept⟩ := hl.kept
    refine orderly_fetched h hready (hc hmax hready) hsized rfl hkept.params hkept.groups hkept.begun
      hl.begun fun hrow => ?_
    obtain ⟨hrun, hcursor⟩ | ⟨-, hsame, -⟩ := hl.broken
    · obtain hcomplete | ⟨c, hc⟩ := hrow
      · change r.complete = true at hcomplete
        rw [hrun] at hcomplete
        cases hcomplete
      · change r.handle.cursor = some c at hc
        rw [hcursor] at hc
        cases hc
    · exact hsame

theorem orderly_started {stmt : Stmt σ} {db : σ} {s : Session σ} (h0 : stmt.parameters ≠ [])
    (h : Started stmt db s) : Orderly s := by
  refine ⟨sized_started h, ?_, [], ?_⟩
  · cases h with
    | query h0' => exact absurd h0' h0
    | unbound => rfl
  · cases h with
    | query h0' => exact absurd h0' h0
    | unbound =>
      refine ⟨rfl, List.nil_prefix, List.nil_prefix, fun hready => ?_⟩
      cases hready

/-- Whatever fails: in a run in which rows are fetched from a ready result only when it
has a row or is complete, only whole groups of the last accepted binding are executed,
in order, and each at most once. -/
theorem groups_in_order (env : Environment) (stmt : Stmt σ) (h0 : stmt.parameters ≠ []) (db : σ)
    (totalChanges : Nat) (withAltTypes : Bool) (s : Session σ)
    (hs : start env stmt db totalChanges withAltTypes = some s) (calls : List Call)
    (hcalls : Along (next env) RowThere s calls) :
    Along (next env) (fun s c => InOrder (s.next env c)) s calls :=
  along_of_invariant (orderly_next env)
    (fun s c h hc => inOrder_orderly (orderly_next env s c h hc))
    (orderly_started h0 (started_start hs)) calls hcalls

def echoTwo : Stmt Unit where
  columns := [("x", none), ("y", none)]
  parameters := [none, none]
  run _ b := { rows := [b], db := (), changes := 0 }

theorem groups_in_order_rebound :
    Along (next calm) (fun s c => InOrder (s.next calm c))
      (opened echoTwo () (initial echoTwo () 0 false))
      [.bind [.int [1, 2], .list [.raw [1], .other]], .fetch 1, .bind [.int [3], .list [.nilsxp]],
        .fetch 1] :=
  groups_in_order calm echoTwo (by decide) () 0 false _ rfl
    [.bind [.int [1, 2], .list [.raw [1], .other]], .fetch 1, .bind [.int [3], .list [.nilsxp]],
      .fetch 1] (by decide +kernel)

/-- The second group is bound half; the next fetch executes it so. -/
theorem half_bound_group :
    ¬∀ (env : Environment) (stmt : Stmt Unit) (db : Unit) (totalChanges : Nat)
      (withAltTypes : Bool) (s : Session Unit) (calls : List Call), stmt.parameters ≠ [] →
      start env stmt db totalChanges withAltTypes = some s →
      Along (next env) (fun s c => InOrder (s.next env c)) s calls := by
  intro h
  have hrun := h calm echoTwo () 0 false _
    [.bind [.int [1, 2], .list [.raw [1], .other]], .fetch 1, .fetch 1] (by decide) rfl
  revert hrun
  decide +kernel

end RSQLCipher.GroupOrder
