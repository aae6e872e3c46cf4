import RSQLCipher.BulkExecution
import RSQLCipher.RowsAffected

namespace RSQLCipher.LiveResults

open RSQLCipher.Library RSQLCipher.Values RSQLCipher.Statement RSQLCipher.Params
open RSQLCipher.ResultImpl RSQLCipher.Placeholders RSQLCipher.Connections
open RSQLCipher.Batching RSQLCipher.BulkExecution RSQLCipher.RowsAffected SqliteResult

variable {σ : Type}

/-- `ref$result` is the one result that is valid, and the rows affected of a bound result are
the changes counted in its executions since it was bound. -/
def Accounted (c : Connection σ) : Prop :=
  (∀ i, dbIsValid c i = true ↔ c.ref = some i) ∧
    ∀ i o, c.opened i = some o → o.result.ready = true →
      dbGetRowsAffected c i = some (o.counted : Int)

/-- A result is not bound to rows in the middle of a change. -/
def SettledCall (asText : Param → Param) (c : Connection σ) : Call σ → Prop
  | .bind _ i params => ∀ o, c.opened i = some o → Settled asText params (c.attach o.result)
  | _ => True

structure Counting (live : Option Nat) (c : Connection σ) : Prop where
  one : ∀ i, (c.opened i).isSome = true ↔ live = some i
  sound : ∀ i o, c.opened i = some o → Sound (c.attach o.result) o.counted

variable {c c' : Connection σ} {live : Option Nat} {asText : Param → Param}

theorem accounted_counting (h : Counting c.ref c) : Accounted c := by
  refine ⟨h.one, fun i o ho hready => ?_⟩
  rw [dbGetRowsAffected, ho]
  exact nRowsAffected_sound (h.sound i o ho) hready

theorem counting_ref (h : Counting live c) (ref : Option Nat) :
    Counting live { c with ref := ref } := ⟨h.one, h.sound⟩

theorem lt_of_opened {i : Nat} {o : OpenResult σ} (h : c.opened i = some o) :
    i < c.results.length := by
  by_contra hlt
  rw [Connection.opened, List.getElem?_eq_none (not_lt.mp hlt)] at h
  cases h

theorem opened_save {i : Nat} {o : OpenResult σ} (h : c.opened i = some o) (o' : OpenResult σ)
    (j : Nat) : (c.save i o').opened j = if j = i then some o' else c.opened j := by
  have hset := opened_set c i j (some o')
  simp only [lt_of_opened h, and_true] at hset
  exact hset

theorem counting_save {i : Nat} {o o' : OpenResult σ} (h : Counting live c)
    (ho : c.opened i = some o) (hsound : Sound o'.result o'.counted) :
    Counting live (c.save i o') where
  one j := by
    rw [opened_save ho, ← h.one j]
    split
    · rename_i hj
      rw [hj, ho]
      rfl
    · exact Iff.rfl
  sound j p hp := by
    rw [opened_save ho] at hp
    split at hp
    · cases hp
      exact hsound
    · rename_i hj
      have hlive : live = some i := (h.one i).mp (by rw [ho]; rfl)
      have hlive' : live = some j := (h.one j).mp (by rw [hp]; rfl)
      rw [hlive] at hlive'
      exact absurd (Option.some.inj hlive').symm hj

theorem onResult_counting {α : Type} {i : Nat} {x : ResultM σ α}
    {counted : OpenResult σ → SqliteResult σ → SqliteResult σ → Nat} (h : Counting live c)
    (hx : ∀ o, c.opened i = some o →
      Ends (fun _ r => Sound r (counted o (c.attach o.result) r))
        (fun _ r => Sound r (counted o (c.attach o.result) r)) (x (c.attach o.result))) :
    Ends (fun _ c' => Counting live c' ∧ c'.ref = c.ref)
      (fun _ c' => Counting live c' ∧ c'.ref = c.ref) (onResult i x counted c) := by
  refine ends_onResult (fun _ => ⟨h, rfl⟩) fun o ho => ?_
  exact ends_mono (hx o ho) (fun _ _ hsound => ⟨counting_save h ho hsound, rfl⟩)
    fun _ _ hsound => ⟨counting_save h ho hsound, rfl⟩

theorem dbClearResult_stale {i : Nat} (h : c.opened i = none) :
    dbClearResult i c = .ok () c := by
  simp [dbClearResult, dbIsValid, h]

theorem dbClearResult_live {i : Nat} (h : Counting (some i) c) :
    ∃ c', dbClearResult i c = .ok () c' ∧ Counting none c' ∧ c'.ref = none := by
  obtain ⟨o, ho⟩ := Option.isSome_iff_exists.mp ((h.one i).mpr rfl)
  refine ⟨{ c.finalize (c.attach o.result) with
    results := c.results.set i none, ref := none }, ?_, ?_, rfl⟩
  · simp [dbClearResult, resultRelease, dbIsValid, ho]
  · have hnone : ∀ j, Connection.opened { c.finalize (c.attach o.result) with
        results := c.results.set i none, ref := none } j = none := by
      intro j
      have hset := opened_set c i j none
      simp only [lt_of_opened ho, and_true] at hset
      refine hset.trans ?_
      split
      · rfl
      · rename_i hj
        have hclosed : ¬(c.opened j).isSome = true :=
          fun hopen => hj (Option.some.inj ((h.one j).mp hopen)).symm
        simpa using hclosed
    constructor
    · intro j
      simp [hnone j]
    · intro j p hp
      rw [hnone j] at hp
      cases hp

theorem counting_dbClearResult (i : Nat) (h : Counting c.ref c) :
    Counting (left (dbClearResult i c)).ref (left (dbClearResult i c)) := by
  cases ho : c.opened i with
  | none =>
    rw [dbClearResult_stale ho]
    exact h
  | some o =>
    have hlive : c.ref = some i := (h.one i).mp (by rw [ho]; rfl)
    obtain ⟨c', hrun, hnone, href⟩ := dbClearResult_live (hlive ▸ h)
    rw [hrun, left, href]
    exact hnone

theorem closePending_counting (h : Counting c.ref c) :
    ∃ c', closePending c = .ok () c' ∧ Counting none c' ∧ c'.ref = none := by
  cases href : c.ref with
  | none =>
    refine ⟨c, ?_, href ▸ h, href⟩
    simp [closePending, href]
  | some i =>
    obtain ⟨c', hrun, hnone, href'⟩ := dbClearResult_live (href ▸ h)
    refine ⟨c', ?_, hnone, href'⟩
    simp [closePending, href, hrun, href']

/-- A result that has just been created, before it is `ref$result`. -/
structure Created (asText : Param → Param) (rs : Nat) (c : Connection σ) : Prop where
  counting : Counting (some rs) c
  settled : ∀ params o, c.opened rs = some o → Settled asText params (c.attach o.result)
  ref : c.ref = none

theorem opened_append (c : Connection σ) (o : OpenResult σ) (j : Nat) :
    Connection.opened { c with results := c.results ++ [some o] } j =
      if j = c.results.length then some o else c.opened j := by
  simp only [Connection.opened]
  by_cases hj : j = c.results.length
  · simp [hj]
  · by_cases hlt : j < c.results.length
    · rw [List.getElem?_append_left hlt, if_neg hj]
    · have hnone : (c.results ++ [some o])[j]? = none := by
        apply List.getElem?_eq_none
        simp only [List.length_append, List.length_singleton]
        omega
      rw [hnone, if_neg hj, List.getElem?_eq_none (not_lt.mp hlt)]

theorem counting_none : Counting none c ↔ ∀ i, c.opened i = none := by
  constructor
  · intro h i
    simpa using (h.one i).not.mpr (by simp)
  · intro h
    constructor
    · intro i
      simp [h i]
    · intro i o ho
      rw [h i] at ho
      cases ho

theorem counting_append (h : Counting none c) {o : OpenResult σ}
    (hsound : Sound (c.attach o.result) o.counted) :
    Counting (some c.results.length) { c with results := c.results ++ [some o] } := by
  have hnone := counting_none.mp h
  constructor
  · intro j
    rw [opened_append, hnone j]
    split
    · rename_i hj
      simp [hj]
    · rename_i hj
      simp [Ne.symm hj]
  · intro j p hp
    rw [opened_append, hnone j] at hp
    split at hp
    · cases hp
      exact hsound
    · cases hp

theorem resultCreate_counting (env : Environment) (prepare : σ → Except String (Stmt σ))
    (h : Counting none c) (href : c.ref = none) :
    Ends (fun rs c' => Created asText rs c') (fun _ c' => Counting none c' ∧ c'.ref = none)
      (resultCreate env prepare c) := by
  have hnone := counting_none.mp h
  rw [resultCreate]
  split
  · cases prepare c.db with
    | error message => exact ⟨h, href⟩
    | ok stmt =>
      simp only
      cases hrun : create env (initial stmt c.db c.totalChanges c.withAltTypes) with
      | error e r => exact ⟨counting_none.mpr hnone, href⟩
      | ok u r =>
        obtain ⟨hsound, hpending⟩ := sound_create env stmt c.db c.totalChanges c.withAltTypes hrun
        have hbefore : Counting none { c with
            db := r.handle.db, totalChanges := r.handle.totalChanges } := counting_none.mpr hnone
        refine ⟨counting_append hbefore hsound, ?_, href⟩
        intro params o ho ps haccepted _
        rw [opened_append { c with db := r.handle.db, totalChanges := r.handle.totalChanges },
          if_pos rfl] at ho
        cases ho
        exact hpending (dbBindResult_accepted env haccepted).1.2.1
  · exact ⟨h, href⟩

theorem bindResult_counting (env : Environment) {i : Nat} {params : RList Param}
    (h : Counting live c)
    (hsettled : ∀ o, c.opened i = some o → Settled asText params (c.attach o.result)) :
    Ends (fun _ c' => Counting live c' ∧ c'.ref = c.ref)
      (fun _ c' => Counting live c' ∧ c'.ref = c.ref) (bindResult asText env i params c) := by
  have hbind : ∀ o, c.opened i = some o → Ends
      (fun _ r => Sound r (countedSinceBind env asText params o (c.attach o.result) r))
      (fun _ r => Sound r (countedSinceBind env asText params o (c.attach o.result) r))
      (dbBindResult env asText false params (c.attach o.result)) :=
    fun o ho => sound_bind env (h.sound i o ho) (hsettled o ho)
  exact ends_bind (onResult_counting h hbind) fun _ _ hc => hc

/-- What `on.exit` leaves when a result could not be bound. -/
theorem leave_clear {rs : Nat} (h : Counting (some rs) c) :
    Ends (fun _ c' => Counting c'.ref c') (fun _ c' => Counting c'.ref c')
      (Frame.leave (ε := Fault) { state := c, exit := some (dbClearResult rs) }) := by
  obtain ⟨c', hrun, hnone, href⟩ := dbClearResult_live h
  show Ends _ _ (dbClearResult rs c)
  rw [hrun]
  show Counting c'.ref c'
  rw [href]
  exact hnone

theorem dbSendQuery_counting (asText : Param → Param) (env : Environment)
    (prepare : σ → Except String (Stmt σ)) (params : Option (RList Param))
    (h : Counting c.ref c) :
    Ends (fun _ c' => Counting c'.ref c') (fun _ c' => Counting c'.ref c')
      (dbSendQuery asText env prepare params c) := by
  obtain ⟨c₁, hclose, hnone, href⟩ := closePending_counting h
  apply ends_function
  have hclose' : (liftM (closePending : ConnectionM σ Unit) :
      EStateM Fault (Frame Fault (Connection σ)) Unit) { state := c, exit := none } = .ok () { state := c₁, exit := none } := by
    rw [lift_apply, hclose]
  rw [bind_ok hclose']
  refine ends_bind (?_ : Ends (fun rs f => f.exit = none ∧ Created asText rs f.state) _ _) ?_
  · apply ends_lift
    refine ends_mono (resultCreate_counting env prepare hnone href) (fun rs c' hc => ⟨rfl, hc⟩) ?_
    rintro e c' ⟨hc, href'⟩
    show Counting c'.ref c'
    rw [href']
    exact hc
  rintro rs ⟨c₂, exit⟩ ⟨-, hcreated⟩
  have hlast : ∀ f : Frame Fault (Connection σ), Counting (some rs) f.state →
      Ends (fun _ f => Ends (fun _ c' => Counting c'.ref c') (fun _ c' => Counting c'.ref c') f.leave)
        (fun _ f => Ends (fun _ c' => Counting c'.ref c') (fun _ c' => Counting c'.ref c') f.leave)
        ((do
          onExit none
          modify fun f : Frame Fault (Connection σ) =>
            { f with state := { f.state with ref := some rs } }
          return rs) f) := by
    intro f hf
    exact counting_ref hf (some rs)
  rw [bind_ok (onExit_apply _ _)]
  cases params with
  | none => exact hlast _ hcreated.counting
  | some params =>
    have hbind := bindResult_counting env hcreated.counting (hcreated.settled params)
    refine ends_bind (ends_lift ?_ : Ends (fun _ f => Counting (some rs) f.state) _ _) fun _ => hlast
    exact ends_mono hbind (fun _ c' hc' => hc'.1) fun _ c' hc' => leave_clear hc'.1

theorem counting_left {α : Type} {x : EStateM.Result Fault (Connection σ) α}
    {post : Connection σ → Prop} (h : Ends (fun _ => post) (fun _ => post) x) : post (left x) := by
  cases x with
  | ok a c' | error e c' => exact h

/-- What the calls on handlers leave alone. -/
structure SameResults (c c' : Connection σ) : Prop where
  db : c'.db = c.db
  totalChanges : c'.totalChanges = c.totalChanges
  results : c'.results = c.results
  ref : c'.ref = c.ref

theorem counting_same (h : Counting c.ref c) (hsame : SameResults c c') : Counting c'.ref c' := by
  have hopened : ∀ i, c'.opened i = c.opened i := by
    intro i
    rw [Connection.opened, hsame.results, Connection.opened]
  constructor
  · intro i
    rw [hopened, hsame.ref]
    exact h.one i
  · intro i o ho
    rw [hopened] at ho
    rw [Connection.attach, hsame.db, hsame.totalChanges]
    exact h.sound i o ho

theorem keeps_same {f : Connection σ → Connection σ} (hf : ∀ c, SameResults c (f c)) :
    Keeps (SameResults c) (modify f : ConnectionM σ Unit) := by
  apply keeps_modify
  intro c' hc'
  have hf' := hf c'
  exact ⟨hf'.db.trans hc'.db, hf'.totalChanges.trans hc'.totalChanges,
    hf'.results.trans hc'.results, hf'.ref.trans hc'.ref⟩

theorem sameResults_released (c : Connection σ) : SameResults c (released c) := by
  rw [released]
  cases c.busyCallback with
  | none | some s => exact ⟨rfl, rfl, rfl, rfl⟩

theorem keeps_setBusyHandler (callback : Option CallbackKind) :
    Keeps (SameResults c) (setBusyHandler callback : ConnectionM σ Unit) := by
  refine keeps_bind keeps_get fun c' => keeps_check ?_
  refine keeps_bind (keeps_same sameResults_released) fun _ => ?_
  cases callback with
  | none => exact keeps_same fun _ => ⟨rfl, rfl, rfl, rfl⟩
  | some kind =>
    refine keeps_bind (keeps_same fun _ => ⟨rfl, rfl, rfl, rfl⟩) fun _ => ?_
    exact keeps_same fun _ => ⟨rfl, rfl, rfl, rfl⟩

theorem keeps_sqliteSetBusyHandler (handler : BusyHandler) :
    Keeps (SameResults c) (sqliteSetBusyHandler handler : ConnectionM σ Unit) := by
  cases handler with
  | null => exact keeps_setBusyHandler none
  | numeric ms => exact keeps_setBusyHandler (some (.integer ms))
  | function => exact keeps_setBusyHandler (some .function)
  | other => exact keeps_throw _

theorem keeps_dbDisconnect : Keeps (SameResults c) (dbDisconnect : ConnectionM σ Unit) := by
  refine keeps_bind keeps_get fun c' => keeps_ite ?_ (keeps_pure _)
  refine keeps_bind (keeps_same fun _ => ⟨rfl, rfl, rfl, rfl⟩) fun _ => ?_
  exact keeps_same sameResults_released

theorem counting_next (h : Counting c.ref c) {call : Call σ}
    (hsettled : SettledCall asText c call) :
    Counting (next asText c call).ref (next asText c call) := by
  cases call with
  | sendQuery env prepare params =>
    have hsend := counting_left (dbSendQuery_counting asText env prepare params h)
    exact hsend
  | bind env i params =>
    have hbind := counting_left (bindResult_counting env h hsettled)
    exact hbind.2.symm ▸ hbind.1
  | fetch env i n =>
    have hfetch := counting_left (onResult_counting h fun o ho => sound_fetch env n (h.sound i o ho))
    exact hfetch.2.symm ▸ hfetch.1
  | clearResult i => exact counting_dbClearResult i h
  | disconnect =>
    exact counting_same h (counting_left (keeps_dbDisconnect c ⟨rfl, rfl, rfl, rfl⟩))
  | setBusyHandler handler =>
    exact counting_same h (counting_left (keeps_sqliteSetBusyHandler handler c ⟨rfl, rfl, rfl, rfl⟩))

/-- A binding in the middle of a change makes the number of rows affected wrong. -/
theorem not_accounted_bind (env : Environment) {i : Nat} {params : RList Param}
    (h : Counting c.ref c) (hsettled : ¬SettledCall asText c (.bind env i params)) :
    ¬Accounted (next asText c (.bind env i params)) := by
  rw [SettledCall] at hsettled
  push Not at hsettled
  obtain ⟨o, ho, hunsettled⟩ := hsettled
  have hwrong := nRowsAffected_unsettled env (h.sound i o ho) hunsettled
  rintro ⟨-, haffected⟩
  cases hrun : dbBindResult env asText false params (c.attach o.result) with
  | ok warnings r | error e r =>
    rw [hrun] at hwrong
    have hnext : next asText c (.bind env i params) = c.save i
        { result := r, counted := countedSinceBind env asText params o (c.attach o.result) r } := by
      simp [next, bindResult, onResult, ho, hrun, left]
    have hopened := opened_save (c := c) ho
      { result := r, counted := countedSinceBind env asText params o (c.attach o.result) r } i
    rw [if_pos rfl] at hopened
    rw [hnext] at haffected
    have hcount := haffected i _ hopened hwrong.1
    rw [dbGetRowsAffected, hopened] at hcount
    exact hwrong.2 hcount

theorem accounted_iff (h : Counting c.ref c) (call : Call σ) :
    Accounted (next asText c call) ↔ SettledCall asText c call := by
  constructor
  · intro haccounted
    by_contra hsettled
    cases call with
    | bind env i params => exact not_accounted_bind env h hsettled haccounted
    | sendQuery | fetch | clearResult | disconnect | setBusyHandler => exact hsettled trivial
  · intro hsettled
    exact accounted_counting (counting_next h hsettled)

theorem counting_dbConnect (db : σ) (totalChanges : Nat) (withAltTypes : Bool) :
    Counting none (dbConnect db totalChanges withAltTypes) :=
  counting_none.mpr fun _ => rfl

/-- The runs in which the one result is known and its rows affected are its own are those
that never bind rows to a result in the middle of a change. -/
theorem run_accounted_iff (asText : Param → Param) (db : σ) (totalChanges : Nat)
    (withAltTypes : Bool) (calls : List (Call σ)) :
    Along (next asText) (fun c call => Accounted (next asText c call))
        (dbConnect db totalChanges withAltTypes) calls ↔
      Along (next asText) (SettledCall asText) (dbConnect db totalChanges withAltTypes) calls :=
  along_iff (fun c => Counting c.ref c) (fun _ _ h hsettled => counting_next h hsettled)
    (fun _ call h => accounted_iff h call) (counting_dbConnect db totalChanges withAltTypes) calls

def oneRow : RList Param where
  values := [.int [1]]
  names := none
  sameLength _ h := by cases h

def bindTwice : List (Call (List Row)) :=
  [.sendQuery calm (fun _ => .ok insertReturning) none, .bind calm 0 oneRow, .bind calm 0 oneRow]

theorem change_counted_again :
    ¬∀ calls : List (Call (List Row)),
      Along (next id) (fun c call => Accounted (next id c call)) (dbConnect [] 0 false) calls := by
  intro h
  have hlast : Accounted (runCalls (next id) (dbConnect [] 0 false) bindTwice) := by
    have hrun := h bindTwice
    simp only [bindTwice, Along] at hrun
    simp only [bindTwice, runCalls, List.foldl_cons, List.foldl_nil]
    exact hrun.2.2.1
  have hwrong : ((runCalls (next id) (dbConnect [] 0 false) bindTwice).opened 0).any (fun o =>
      o.result.ready && dbGetRowsAffected (runCalls (next id) (dbConnect [] 0 false) bindTwice) 0 !=
        some (o.counted : Int)) = true := by
    decide +kernel
  obtain ⟨o, ho, hwrong⟩ := (Option.any_eq_true _ _).mp hwrong
  simp only [Bool.and_eq_true, bne_iff_ne] at hwrong
  exact hwrong.2 (hlast.2 0 o ho hwrong.1)

end RSQLCipher.LiveResults
