import RSQLCipher.Batching

namespace RSQLCipher.AfterErrors

open RSQLCipher.Library RSQLCipher.Values RSQLCipher.Statement RSQLCipher.Params
open RSQLCipher.DataFrame RSQLCipher.ResultImpl RSQLCipher.Stepping RSQLCipher.Course
open RSQLCipher.Fetching RSQLCipher.Binding RSQLCipher.Sessions RSQLCipher.Batching
open SqliteResult Session

variable {σ : Type}

/-- A fetch that returns has the rows that follow those returned before. -/
def FetchesNext (env : Environment) (s : Session σ) : Call → Prop
  | .fetch nMax => nMax ≠ 0 → Ends (fun out _ => NextRows env nMax s out) (fun _ _ => True)
      (fetch env nMax s.result)
  | .bind _ | .getColumnInfo => True

instance (env : Environment) (s : Session σ) : (c : Call) → Decidable (FetchesNext env s c)
  | .fetch nMax => inferInstanceAs (Decidable (nMax ≠ 0 →
      Ends (fun out _ => NextRows env nMax s out) (fun _ _ => True) (fetch env nMax s.result)))
  | .bind _ | .getColumnInfo => .isTrue trivial

def InPlace (s : Session σ) : Prop := AtRow s.result ∧ s.result.nrows = s.delivered.length

def Guarded (s : Session σ) : Call → Prop
  | .fetch nMax => nMax ≠ 0 → s.result.ready = true → InPlace s
  | .bind _ | .getColumnInfo => True

instance (s : Session σ) : (c : Call) → Decidable (Guarded s c)
  | .fetch nMax => inferInstanceAs (Decidable (nMax ≠ 0 → s.result.ready = true →
      AtRow s.result ∧ s.result.nrows = s.delivered.length))
  | .bind _ | .getColumnInfo => .isTrue trivial

/-- A result that is not in place: it would read a row that is not there, or it has
counted rows that nobody got. -/
def Misplaced (s : Session σ) : Prop :=
  (s.result.complete = false ∧ s.result.handle.cursor = none) ∨
    s.delivered.length < s.result.nrows

theorem not_inPlace {s : Session σ} (h : Misplaced s) : ¬InPlace s := by
  rintro ⟨hrow, hnrows⟩
  obtain ⟨hrun, hcursor⟩ | hlost := h
  · obtain hc | ⟨c, hc⟩ := hrow
    · rw [hrun] at hc
      cases hc
    · rw [hcursor] at hc
      cases hc
  · omega

/-- The invariant of sessions in which calls fail. -/
structure Survives (s : Session σ) : Prop where
  sized : Sized s.result
  course : s.result.ready = true → Misplaced s ∨ OnCourse s

theorem onCourse_inPlace {s : Session σ} (h : Survives s) (hready : s.result.ready = true)
    (hplace : InPlace s) : OnCourse s :=
  (h.course hready).resolve_left fun hmis => not_inPlace hmis hplace

theorem survives_bindFailed {env : Environment} {s : Session σ} (h : Survives s)
    {params : List Param} {r : SqliteResult σ} (hb : BindFailed env params s.result r)
    (hready : r.ready = true) :
    let s' := { s with result := r, mark := s.result.handle.begun.length }
    Misplaced s' ∨ OnCourse s' := by
  intro s'
  obtain ⟨hr, hc, hn⟩ | ⟨-, hrun⟩ := hb.flags
  · cases hcomplete : r.complete with
    | false => exact .inl (.inl ⟨hcomplete, hb.cursor⟩)
    | true =>
      have hcs : s.result.complete = true := hc ▸ hcomplete
      obtain (⟨hrun, -⟩ | hlost) | hcourse := h.course (hr ▸ hready)
      · rw [hcs] at hrun
        cases hrun
      · left
        right
        change s.delivered.length < r.nrows
        omega
      · right
        refine ⟨.inl hcomplete, ?_, hn.trans hcourse.nrows⟩
        change s.truth = s.delivered ++ r.pending
        rw [pending_complete hcomplete, hcourse.truth, pending_complete hcs]
  · exact .inl (.inl ⟨hrun, hb.cursor⟩)

theorem survives_next (env : Environment) (s : Session σ) (c : Call) (h : Survives s)
    (hc : Guarded s c) : Survives (s.next env c) := by
  have hmove := next_move env s h.sized c
  refine ⟨sized_move h.sized hmove, ?_⟩
  generalize s.next env c = s' at hmove
  cases hmove with
  | same => exact h.course
  | retyped c types =>
    intro hready
    obtain hmis | hcourse := h.course hready
    · exact .inl hmis
    · exact .inr (onCourse_retyped hcourse types)
  | bound params r ha hb => exact fun _ => .inr (onCourse_bound hb)
  | bindFailed params r ha hb => exact survives_bindFailed h hb
  | returned nMax hmax hready out r hr =>
    exact fun _ => .inr (onCourse_fetch (onCourse_inPlace h hready (hc hmax hready)) hr)
  | lost nMax hmax hready r hl =>
    intro _
    left
    obtain hbroken | ⟨hlt, -, -⟩ := hl.broken
    · exact .inl hbroken
    · right
      have hnrows := (hc hmax hready).2
      change s.delivered.length < r.nrows
      omega

theorem fetchesNext_survives (env : Environment) (s : Session σ) (c : Call) (h : Survives s)
    (hc : Guarded s c) : FetchesNext env s c := by
  cases c with
  | bind => trivial
  | getColumnInfo => trivial
  | fetch nMax =>
    intro hmax
    cases hready : s.result.ready with
    | false =>
      rw [fetch_notReady env nMax s.result hready]
      trivial
    | true =>
      have hcourse := onCourse_inPlace h hready (hc hmax hready)
      refine ends_mono (fetch_spec env nMax hmax s.result h.sized hready) ?_ (fun _ _ _ => trivial)
      exact fun out r hr => nextRows_onCourse hcourse hr

theorem survives_started {stmt : Stmt σ} {db : σ} {s : Session σ} (h : Started stmt db s) :
    Survives s :=
  ⟨sized_started h, fun hready => .inr (onCourse_started h hready)⟩

/-- Whatever fails: in a run in which rows are fetched only from a result that is in
place, every fetch that returns has the rows that follow. -/
theorem fetches_next (env : Environment) (stmt : Stmt σ) (db : σ) (totalChanges : Nat)
    (withAltTypes : Bool) (s : Session σ)
    (hs : start env stmt db totalChanges withAltTypes = some s) (calls : List Call)
    (hcalls : Along (next env) Guarded s calls) : Along (next env) (FetchesNext env) s calls :=
  along_of_invariant (survives_next env) (fetchesNext_survives env)
    (survives_started (started_start hs)) calls hcalls

def flaky (k : Nat) : Environment :=
  { calm with fails := fun n => if n = k then some "disk I/O error" else none }

theorem fetches_next_flaky :
    Along (next (flaky 3)) (FetchesNext (flaky 3))
      (opened echo () (initial echo () 0 false))
      [.fetch 1, .bind [.int [7]], .fetch 1, .bind [.int [8]], .fetch 1] :=
  fetches_next (flaky 3) echo () 0 false (opened echo () (initial echo () 0 false)) rfl
    [.fetch 1, .bind [.int [7]], .fetch 1, .bind [.int [8]], .fetch 1] (by decide +kernel)

def twoRows : Stmt Unit where
  columns := [("x", none)]
  parameters := []
  run _ _ := { rows := [[.integer 1], [.integer 2]], db := (), changes := 0 }

/-- The step to the second row fails in the first fetch; the second fetch returns a row
of NULLs. -/
theorem fabricated_row :
    ¬∀ (env : Environment) (stmt : Stmt Unit) (db : Unit) (totalChanges : Nat)
      (withAltTypes : Bool) (s : Session Unit) (calls : List Call),
      start env stmt db totalChanges withAltTypes = some s →
      Along (next env) (FetchesNext env) s calls := by
  intro h
  have hrun := h (flaky 1) twoRows () 0 false _ [.fetch 1, .fetch 1] rfl
  revert hrun
  decide +kernel

end RSQLCipher.AfterErrors
