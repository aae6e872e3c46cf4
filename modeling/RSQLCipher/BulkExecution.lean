import RSQLCipher.Batching

namespace RSQLCipher.BulkExecution

open RSQLCipher.Library RSQLCipher.Values RSQLCipher.Statement RSQLCipher.Params
open RSQLCipher.ResultImpl RSQLCipher.Stepping RSQLCipher.Course RSQLCipher.Fetching
open RSQLCipher.Binding RSQLCipher.Sessions RSQLCipher.Batching SqliteResult Session

variable {σ : Type}

/-- The rows that one of some groups yields when they are executed in order. -/
def rowsOfGroup (stmt : Stmt σ) (db : σ) (groups : List (List Cell)) (g : Nat) : List Row :=
  match groups[g]? with
  | some b => (stmt.run (dbAfter stmt db (groups.take g)) b).rows
  | none => []

theorem rowsOfGroup_append (stmt : Stmt σ) (db : σ) (before later : List (List Cell))
    (b : List Cell) : rowsOfGroup stmt db (before ++ b :: later) before.length =
      (stmt.run (dbAfter stmt db before) b).rows := by
  simp [rowsOfGroup]

theorem rowsOfGroup_quiet (stmt : Stmt σ) (db : σ) (quiet later : List (List Cell))
    (h : rowsOf stmt db quiet = []) (g : Nat) (hg : g < quiet.length) :
    rowsOfGroup stmt db (quiet ++ later) g = [] := by
  have hsplit : quiet = quiet.take g ++ quiet[g] :: quiet.drop (g + 1) := by simp
  have hlen : (quiet.take g).length = g := List.length_take_of_le hg.le
  have hrows := rowsOfGroup_append stmt db (quiet.take g) (quiet.drop (g + 1) ++ later) quiet[g]
  rw [← List.cons_append, ← List.append_assoc, ← hsplit, hlen] at hrows
  rw [hrows]
  rw [hsplit, rowsOf_append, List.append_eq_nil_iff] at h
  exact (List.append_eq_nil_iff.mp h.2).1

structure Skipping (r s : SqliteResult σ) : Prop where
  between : Between r s
  cursor : s.handle.cursor = none
  skipped : ∃ quiet, r.queue = quiet ++ s.queue ∧ rowsOf r.handle.stmt r.handle.db quiet = [] ∧
    s.handle.db = dbAfter r.handle.stmt r.handle.db quiet

/-- The row at which `step` stops is of the first group that yields any. -/
def AtFirst (r s : SqliteResult σ) : Prop :=
  s.complete = true ∨ ∃ quiet b, r.queue = quiet ++ b :: s.laterGroups ∧
    rowsOf r.handle.stmt r.handle.db quiet = [] ∧
    (r.handle.stmt.run (dbAfter r.handle.stmt r.handle.db quiet) b).rows ≠ []

theorem queue_none {s : SqliteResult σ} (h : s.handle.cursor = none) :
    s.queue = s.handle.bindings :: s.laterGroups := by
  simp [queue, h]

theorem skipping_next {r s t : SqliteResult σ} (h : Skipping r s) (ht : StepRun s t true) :
    Skipping r t := by
  obtain ⟨quiet, hqueue, hrows, hdb⟩ := h.skipped
  have hstmt := h.between.kept.stmt
  have hend := ht.db
  cases ht.came with
  | next running cursor group more hnone later =>
    simp only [rows, h.cursor, hstmt, hdb] at hnone
    simp only [dbEnd, h.cursor, hstmt, hdb] at hend
    refine ⟨between_next h.between ht, cursor, quiet ++ [s.handle.bindings], ?_, ?_, ?_⟩
    · rw [hqueue, queue_none h.cursor, later, queue_none cursor]
      simp
    · rw [rowsOf_append, hrows, rowsOf, hnone]
      rfl
    · rw [dbAfter_append, hend]
      rfl

theorem atFirst_stop {r s t : SqliteResult σ} (h : Skipping r s) (ht : StepRun s t false) :
    AtFirst r t := by
  obtain ⟨quiet, hqueue, hrows, hdb⟩ := h.skipped
  have hstmt := h.between.kept.stmt
  cases ht.came with
  | done complete => exact .inl complete
  | row c running cursor hsome later =>
    simp only [rows, h.cursor, hstmt, hdb] at hsome
    refine .inr ⟨quiet, s.handle.bindings, ?_, hrows, by simp [hsome]⟩
    rw [hqueue, queue_none h.cursor, later]

theorem step_atFirst (env : Environment) (r : SqliteResult σ) (hs : Sized r)
    (hrun : r.complete = false) (hcursor : r.handle.cursor = none) :
    Ends (fun _ s => AtFirst r s) (fun _ _ => True) (step env r) := by
  refine ends_loop (fun _ s => Skipping r s) (fun _ s => s.groups - s.group)
    ?_ _ () r ⟨between_refl hrun, hcursor, [], rfl, rfl, rfl⟩ (Nat.lt_succ_self _)
  intro _ s h
  have hstep := stepRun_spec env s (sized_kept hs h.between.kept) h.between.running
  refine ends_bind (ends_mono hstep (fun _ _ ht => ht) (fun _ _ _ => trivial)) ?_
  intro more t ht
  cases more with
  | false => exact atFirst_stop h ht
  | true => exact ⟨skipping_next h ht, groups_next ht⟩

theorem dbBind_atFirst (env : Environment) (params : List Param) (r : SqliteResult σ)
    (hs : Sized r) (h : Accepts r params) (hpos : 0 < groupCount params) :
    Ends (fun _ r' => r'.complete = true ∨ ∃ quiet b,
        allGroups params = quiet ++ b :: r'.laterGroups ∧
        rowsOf r.handle.stmt r.handle.db quiet = [] ∧
        (r.handle.stmt.run (dbAfter r.handle.stmt r.handle.db quiet) b).rows ≠ [])
      (fun _ _ => True) (dbBind env params r) := by
  have hsized := sized_withParams hs h
  rw [dbBind_accepted env params r h]
  refine ends_bind (ends_mono (bindRow_spec env (withParams r params) hsized hpos)
    (fun _ _ hrow => hrow) (fun _ _ _ => trivial)) ?_
  rintro - s ⟨rfl, b, k, hb, rfl⟩
  have hlen : b.length = r.nparams := (length_groupBindings hb).trans h.2.2
  have hall := allGroups_cons hpos hb
  have hsized' : Sized (initialized (withBindings { withParams r params with
      handle := (withParams r params).handle.sqlite3Reset } b k) true) := ⟨hlen, hsized.params⟩
  have hrun : afterBind env true (withBindings { withParams r params with
      handle := (withParams r params).handle.sqlite3Reset } b k) = step env
        (initialized (withBindings { withParams r params with
          handle := (withParams r params).handle.sqlite3Reset } b k) true) := by
    simp [afterBind, init, initialized]
  rw [hrun]
  refine ends_mono (step_atFirst env _ hsized' rfl rfl) ?_ (fun _ _ _ => trivial)
  rintro - s (hcomplete | ⟨quiet, c, hqueue, hrows, hsome⟩)
  · exact .inl hcomplete
  · refine .inr ⟨quiet, c, ?_, hrows, hsome⟩
    rw [hall, ← hqueue]
    rfl

theorem executed_iff {params : List Param} {r r' : SqliteResult σ} (hb : Bound params r r')
    (hlen : (allGroups params).length = groupCount params)
    (hfirst : r'.complete = true ∨ ∃ quiet b, allGroups params = quiet ++ b :: r'.laterGroups ∧
      rowsOf r.handle.stmt r.handle.db quiet = [] ∧
      (r.handle.stmt.run (dbAfter r.handle.stmt r.handle.db quiet) b).rows ≠ []) :
    (r'.handle.begun = r.handle.begun ++ allGroups params ∧
        r'.handle.db = dbAfter r.handle.stmt r.handle.db (allGroups params)) ↔
      ∀ g, g + 1 < groupCount params →
        rowsOfGroup r.handle.stmt r.handle.db (allGroups params) g = [] := by
  have hplan := hb.ready.plan
  have hplanDb := hb.ready.planDb
  have hpending := hb.ready.pending
  rw [hb.stmt] at hplanDb hpending
  cases hcomplete : r'.complete with
  | true =>
    rw [plan_complete hcomplete] at hplan
    rw [planDb, if_pos hcomplete] at hplanDb
    rw [pending_complete hcomplete] at hpending
    refine iff_of_true ⟨hplan, hplanDb⟩ fun g hg => ?_
    have hquiet := rowsOfGroup_quiet r.handle.stmt r.handle.db (allGroups params) []
      hpending.symm g (by omega)
    rwa [List.append_nil] at hquiet
  | false =>
    obtain ⟨quiet, b, hall, hrows, hsome⟩ := hfirst.resolve_left (by simp [hcomplete])
    obtain hdone | ⟨c, hcursor⟩ := hb.ready.atRow
    · rw [hcomplete] at hdone
      cases hdone
    have hqueue : r'.queue = r'.laterGroups := by simp [queue, hcursor]
    rw [plan_running hcomplete, executions, hqueue] at hplan
    rw [planDb, hcomplete, finalDb, hqueue, hb.stmt] at hplanDb
    have hcount : groupCount params = quiet.length + 1 + r'.laterGroups.length := by
      rw [← hlen, hall]
      simp
      omega
    constructor
    · rintro ⟨hbegun, -⟩ g hg
      rw [hbegun, List.append_right_eq_self] at hplan
      rw [hplan] at hall hcount
      rw [hall]
      exact rowsOfGroup_quiet _ _ quiet [b] hrows g (by simp at hcount; omega)
    · intro hquiet
      have hlast : r'.laterGroups = [] := by
        by_contra hmore
        have hpos := List.length_pos_iff.mpr hmore
        have hnone := hquiet quiet.length (by omega)
        rw [hall, rowsOfGroup_append] at hnone
        exact hsome hnone
      rw [hlast, List.append_nil] at hplan
      rw [hlast] at hplanDb
      exact ⟨hplan, hplanDb⟩

/-- In every session in which nothing fails: when `bind` returns, all groups have been
executed if and only if no group but the last yields rows. -/
theorem bind_executes_all_iff (env : Environment) (hcalls : ∀ k, env.fails k = none)
    (stmt : Stmt σ) (db : σ) (totalChanges : Nat) (withAltTypes : Bool) (s : Session σ)
    (hs : start env stmt db totalChanges withAltTypes = some s) (calls : List Call)
    (params : List Param) (hall : AllBound params)
    (ha : Accepts (runCalls (next env) s calls).result params) :
    let r := (runCalls (next env) s calls).result
    ∃ r', dbBind env params r = .ok () r' ∧
      ((allGroups params).length = groupCount params ∧
        ∀ g < groupCount params, (allGroups params)[g]? = groupBindings params g) ∧
      ((r'.handle.begun = r.handle.begun ++ allGroups params ∧
          r'.handle.db = dbAfter r.handle.stmt r.handle.db (allGroups params)) ↔
        ∀ g, g + 1 < groupCount params →
          rowsOfGroup r.handle.stmt r.handle.db (allGroups params) g = []) := by
  intro r
  have hsized : Sized r := sized_runCalls hs calls
  have hbind := dbBind_spec env params r hsized ha
  have hgroups := allGroups_getElem hall
  cases hrun : dbBind env params r with
  | error e r' =>
    rw [hrun] at hbind
    exact absurd (noFailure_bound hcalls hall hbind.values hbind.groups) hbind.cause
  | ok u r' =>
    rw [hrun] at hbind
    refine ⟨r', rfl, hgroups, executed_iff hbind hgroups.1 ?_⟩
    by_cases hpos : 0 < groupCount params
    · have hfirst := dbBind_atFirst env params r hsized ha hpos
      rw [hrun] at hfirst
      exact hfirst
    · left
      have hnone : allGroups params = [] := List.length_eq_zero_iff.mp (by omega)
      have hpending := hbind.ready.pending
      rw [hnone] at hpending
      cases hcomplete : r'.complete with
      | true => rfl
      | false =>
        rw [pending_running hcomplete] at hpending
        cases hpending

theorem bind_executes_all_iff_echo :
    ∃ r', dbBind calm [.int [7, 8]] (initial echo () 0 false) = .ok () r' ∧
      ((allGroups [.int [7, 8]]).length = groupCount [.int [7, 8]] ∧
        ∀ g < groupCount [.int [7, 8]],
          (allGroups [.int [7, 8]])[g]? = groupBindings [.int [7, 8]] g) ∧
      ((r'.handle.begun = [] ++ allGroups [.int [7, 8]] ∧
          r'.handle.db = dbAfter echo () (allGroups [.int [7, 8]])) ↔
        ∀ g, g + 1 < groupCount [.int [7, 8]] →
          rowsOfGroup echo () (allGroups [.int [7, 8]]) g = []) :=
  bind_executes_all_iff calm (fun _ => rfl) echo () 0 false
    (opened echo () (initial echo () 0 false)) rfl [] [.int [7, 8]]
    (by unfold AllBound; decide) (by decide)

def insertReturning : Stmt (List Row) where
  columns := [("x", none)]
  parameters := [none]
  run db b := { rows := [b], db := db ++ [b], changes := 1 }

/-- The second of two groups is not inserted by the time `bind` returns. -/
theorem second_group_lost :
    ¬∀ (env : Environment) (stmt : Stmt (List Row)) (db : List Row) (params : List Param),
      (∀ k, env.fails k = none) → AllBound params → Accepts (initial stmt db 0 false) params →
      Ends (fun _ r => r.handle.begun = allGroups params ∧
          r.handle.db = dbAfter stmt db (allGroups params)) (fun _ _ => False)
        (dbBind env params (initial stmt db 0 false)) := by
  intro h
  have hrun := h calm insertReturning [] [.int [7, 8]] (fun _ => rfl)
    (by unfold AllBound; decide) (by decide)
  revert hrun
  decide +kernel

end RSQLCipher.BulkExecution
