import RSQLCipher.Stepping

namespace RSQLCipher.Course

open RSQLCipher.Library RSQLCipher.Values RSQLCipher.Statement RSQLCipher.ResultImpl
open RSQLCipher.Stepping SqliteResult

variable {σ : Type}

theorem upcoming_eq (r : SqliteResult σ) :
    r.upcoming = rows r.handle ++ rowsOf r.handle.stmt (dbEnd r.handle) r.laterGroups := by
  cases hc : r.handle.cursor <;> simp [upcoming, queue, rows, dbEnd, rowsOf, hc]

def executions (r : SqliteResult σ) : List (List Cell) := r.handle.begun ++ r.queue

theorem executions_eq (r : SqliteResult σ) :
    executions r = started r.handle ++ r.laterGroups := by
  cases hc : r.handle.cursor <;> simp [executions, queue, started, hc]

def finalDb (r : SqliteResult σ) : σ := dbAfter r.handle.stmt r.handle.db r.queue

theorem finalDb_eq (r : SqliteResult σ) :
    finalDb r = dbAfter r.handle.stmt (dbEnd r.handle) r.laterGroups := by
  cases hc : r.handle.cursor <;> simp [finalDb, queue, dbEnd, dbAfter, hc]

/-- The rows, the executions and the database that lie ahead are the same. -/
structure SameCourse (r r' : SqliteResult σ) : Prop where
  upcoming : r'.upcoming = r.upcoming
  executions : executions r' = executions r
  finalDb : finalDb r' = finalDb r

inductive Reached (r r' : SqliteResult σ) : Prop
  | row (c : Cursor σ) (running : r'.complete = false) (cursor : r'.handle.cursor = some c)
      (upcoming : r.upcoming = c.row :: r'.upcoming) (executions : executions r' = executions r)
      (finalDb : finalDb r' = finalDb r)
  | complete (complete : r'.complete = true) (cursor : r'.handle.cursor = none)
      (upcoming : r.upcoming = []) (executions : r'.handle.begun = executions r)
      (finalDb : r'.handle.db = finalDb r)

/-- A call has raised: no row is read next, and no group was begun out of order. -/
structure Failed (env : Environment) (r r' : SqliteResult σ) : Prop where
  running : r'.complete = false
  cursor : r'.handle.cursor = none
  begun : r'.handle.begun <+: executions r
  cause : ¬NoFailure env r

theorem sameCourse_next {r r' : SqliteResult σ} (h : StepRun r r' true) : SameCourse r r' := by
  cases h.came with
  | next running cursor group more hrows later =>
    have hstmt := h.kept.stmt
    have hqueue : r'.queue = r.laterGroups := by
      rw [later]
      simp [queue, cursor]
    refine ⟨?_, ?_, ?_⟩
    · rw [upcoming_eq r, hrows, ← h.db, ← hstmt, ← hqueue]
      simp [upcoming, cursor]
    · rw [executions_eq r, ← h.begun, ← hqueue]
      rfl
    · rw [finalDb_eq r, ← h.db, ← hstmt, ← hqueue]
      rfl

theorem reached_stop {r r' : SqliteResult σ} (h : StepRun r r' false) : Reached r r' := by
  have hstmt := h.kept.stmt
  cases h.came with
  | row c running cursor hrows later =>
    have hqueue : r'.queue = r.laterGroups := by
      rw [← later]
      simp [queue, cursor]
    refine .row c running cursor ?_ ?_ ?_
    · rw [upcoming_eq r, hrows, ← h.db, ← hstmt, ← hqueue]
      simp [upcoming, cursor]
    · rw [executions_eq r, ← h.begun, ← hqueue]
      rfl
    · rw [finalDb_eq r, ← h.db, ← hstmt, ← hqueue]
      rfl
  | done complete cursor hrows later =>
    refine .complete complete cursor ?_ ?_ ?_
    · rw [upcoming_eq, hrows, later]
      rfl
    · rw [executions_eq, later, h.begun, List.append_nil]
    · rw [finalDb_eq, later, h.db]
      rfl

theorem failed_raised {env : Environment} {r r' : SqliteResult σ} (h : Raised env r r') :
    Failed env r r' where
  running := h.running
  cursor := h.cursor
  begun := by
    rw [executions_eq, h.begun]
    exact List.prefix_append _ _
  cause := h.cause

theorem reached_of_sameCourse {r s t : SqliteResult σ} (hs : SameCourse r s) (h : Reached s t) :
    Reached r t := by
  cases h with
  | row c running cursor upcoming hexecutions hdb =>
    exact .row c running cursor (by rw [← hs.upcoming, upcoming])
      (hexecutions.trans hs.executions) (hdb.trans hs.finalDb)
  | complete complete cursor upcoming hexecutions hdb =>
    exact .complete complete cursor (by rw [← hs.upcoming, upcoming])
      (hexecutions.trans hs.executions) (hdb.trans hs.finalDb)

structure Between (r s : SqliteResult σ) : Prop where
  kept : Kept r s
  running : s.complete = false
  course : SameCourse r s

theorem between_refl {r : SqliteResult σ} (hrun : r.complete = false) : Between r r :=
  ⟨kept_refl r, hrun, rfl, rfl, rfl⟩

theorem between_trans {r s t : SqliteResult σ} (h : Between r s) (h' : Between s t) :
    Between r t where
  kept := kept_trans h.kept h'.kept
  running := h'.running
  course := ⟨h'.course.upcoming.trans h.course.upcoming,
    h'.course.executions.trans h.course.executions, h'.course.finalDb.trans h.course.finalDb⟩

theorem between_next {r s t : SqliteResult σ} (h : Between r s) (ht : StepRun s t true) :
    Between r t := by
  refine between_trans h ⟨ht.kept, ?_, sameCourse_next ht⟩
  cases ht.came with
  | next running => exact running

theorem groups_next {s t : SqliteResult σ} (h : StepRun s t true) :
    t.groups - t.group < s.groups - s.group := by
  have hgroups := h.kept.groups
  cases h.came with
  | next _ _ group more =>
    rw [hgroups] at more ⊢
    omega

theorem failed_between {env : Environment} {r s t : SqliteResult σ} (h : Between r s)
    (hf : Failed env s t) : Failed env r t where
  running := hf.running
  cursor := hf.cursor
  begun := by
    rw [← h.course.executions]
    exact hf.begun
  cause hno := hf.cause (noFailure_kept hno h.kept)

theorem stepRound_spec (env : Environment) (r : SqliteResult σ) (hs : Sized r)
    (s : SqliteResult σ) (h : Between r s) :
    Ends (fun p t => if p.2 then Between r t ∧ t.groups - t.group < s.groups - s.group
        else Kept r t ∧ Reached r t)
      (fun _ t => Kept r t ∧ Failed env r t) (stepRound env () s) := by
  have hstep := ends_mono (stepRun_spec env s (sized_kept hs h.kept) h.running)
    (fun _ _ hmore => hmore)
    (fun _ t hraised => (⟨kept_trans h.kept hraised.kept,
      failed_between h (failed_raised hraised)⟩ : Kept r t ∧ Failed env r t))
  refine ends_bind hstep ?_
  rintro more t ht
  cases more with
  | false => exact ⟨kept_trans h.kept ht.kept, reached_of_sameCourse h.course (reached_stop ht)⟩
  | true => exact ⟨between_next h ht, groups_next ht⟩

theorem step_spec (env : Environment) (r : SqliteResult σ) (hs : Sized r)
    (hrun : r.complete = false) :
    Ends (fun _ r' => Kept r r' ∧ Reached r r') (fun _ r' => Kept r r' ∧ Failed env r r')
      (step env r) :=
  ends_loop _ (fun _ s => s.groups - s.group)
    (fun _ s h => stepRound_spec env r hs s h) _ () r (between_refl hrun) (Nat.lt_succ_self _)

end RSQLCipher.Course
