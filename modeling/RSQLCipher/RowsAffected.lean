import RSQLCipher.Binding
import RSQLCipher.Connections

namespace RSQLCipher.RowsAffected

open RSQLCipher.Library RSQLCipher.Values RSQLCipher.Statement RSQLCipher.Params
open RSQLCipher.DataFrame RSQLCipher.ResultImpl RSQLCipher.Placeholders RSQLCipher.Connections
open RSQLCipher.Stepping RSQLCipher.Fetching RSQLCipher.Binding SqliteResult

variable {σ : Type} {α : Type}

/-- What steps of a statement leave alone, and what they only add to. -/
structure Later (r r' : SqliteResult σ) : Prop where
  start : r'.totalChangesStart = r.totalChangesStart
  total : r.handle.totalChanges ≤ r'.handle.totalChanges
  ready : r'.ready = r.ready

theorem later_refl (r : SqliteResult σ) : Later r r := ⟨rfl, le_rfl, rfl⟩

theorem later_trans {r s t : SqliteResult σ} (h : Later r s) (h' : Later s t) : Later r t where
  start := h'.start.trans h.start
  total := h.total.trans h'.total
  ready := h'.ready.trans h.ready

def Steady (x : ResultM σ α) : Prop := ∀ r, Keeps (Later r) x

theorem steady_of {x : ResultM σ α}
    (h : ∀ r, Ends (fun _ r' => Later r r') (fun _ r' => Later r r') (x r)) : Steady x := by
  intro r s hs
  exact ends_mono (h s) (fun _ _ ht => later_trans hs ht) fun _ _ ht => later_trans hs ht

theorem steady_chance (env : Environment) : Steady (chance env : ResultM σ _) := by
  apply steady_of
  intro r
  exact ⟨rfl, le_rfl, rfl⟩

theorem steady_liftExcept (x : Except Fault α) : Steady (liftExcept x : ResultM σ α) := by
  intro r
  cases x with
  | ok a => exact keeps_pure a
  | error e => exact keeps_throw e

theorem total_sqlite3Step (h : Handle σ) (fails : Bool) :
    h.totalChanges ≤ (h.sqlite3Step fails).2.totalChanges := by
  cases hc : h.cursor with
  | none =>
    cases fails with
    | true => simp [Handle.sqlite3Step, hc]
    | false =>
      cases hrows : (h.stmt.run h.db h.bindings).rows <;>
        simp [Handle.sqlite3Step, hc, hrows]
  | some c =>
    cases fails with
    | true => simp [Handle.sqlite3Step, hc]
    | false => cases hrest : c.rest <;> simp [Handle.sqlite3Step, hc, hrest]

theorem steady_afterStep (r : SqliteResult σ) (fails : Bool) : Later r (afterStep r fails) :=
  ⟨rfl, total_sqlite3Step r.handle fails, rfl⟩

/-- Binding changes the bindings only, and takes time. -/
def Rebound (r r' : SqliteResult σ) : Prop := ∃ bindings clock, r' = withBindings r bindings clock

theorem keeps_bindParameters (env : Environment) (j : Nat) (params : List Param)
    (r : SqliteResult σ) : Keeps (Rebound r) (bindParameters env j params) := by
  induction params generalizing j with
  | nil => exact keeps_pure _
  | cons value params ih =>
    refine keeps_bind ?_ fun _ => ih (j + 1)
    rintro s ⟨bindings, clock, rfl⟩
    rw [bindParameterPos_eq]
    cases env.fails (withBindings r bindings clock).clock with
    | some message => exact ⟨bindings, clock + 1, rfl⟩
    | none =>
      cases value.cell (withBindings r bindings clock).group with
      | error e => exact ⟨bindings, clock + 1, rfl⟩
      | ok c => exact ⟨bindings.set j c, clock + 1, rfl⟩

/-- The changes of an execution that has not been run to its end. -/
def pendingChanges (r : SqliteResult σ) : Nat := r.handle.cursor.elim 0 (·.changes)

/-- The reset before a group is bound counts the changes that were pending. -/
theorem bindRow_rebound (env : Environment) (r : SqliteResult σ) (h : r.group < r.groups) :
    Ends (fun more r' => more = true ∧ Rebound { r with handle := r.handle.sqlite3Reset } r')
      (fun _ r' => Rebound { r with handle := r.handle.sqlite3Reset } r') (bindRow env r) := by
  rw [bindRow_more env r h]
  have hcleared : Rebound { r with handle := r.handle.sqlite3Reset }
      { r with handle := r.handle.sqlite3Reset.sqlite3ClearBindings } := ⟨_, r.clock, rfl⟩
  refine ends_bind (keeps_bindParameters env 0 r.params _ _ hcleared) ?_
  exact fun _ _ hr' => ⟨rfl, hr'⟩

theorem later_rebound {r r' : SqliteResult σ}
    (h : Rebound { r with handle := r.handle.sqlite3Reset } r') : Later r r' := by
  obtain ⟨bindings, clock, rfl⟩ := h
  exact ⟨rfl, Nat.le_add_right _ _, rfl⟩

theorem steady_bindRow (env : Environment) : Steady (bindRow env : ResultM σ Bool) := by
  apply steady_of
  intro r
  by_cases h : r.group < r.groups
  · exact ends_mono (bindRow_rebound env r h) (fun _ _ hr' => later_rebound hr'.2)
      fun _ _ hr' => later_rebound hr'
  · rw [bindRow_last env r (not_lt.mp h)]
    exact later_refl r

theorem keeps_later {r : SqliteResult σ} {f : SqliteResult σ → SqliteResult σ}
    (h : ∀ s, Later s (f s)) : Keeps (Later r) (modify f : ResultM σ PUnit) :=
  keeps_modify fun s hs => later_trans hs (h s)

theorem steady_stepDone (env : Environment) : Steady (stepDone env : ResultM σ Bool) := by
  intro r
  refine keeps_bind (keeps_later fun _ => ⟨rfl, le_rfl, rfl⟩) fun _ => ?_
  refine keeps_bind (steady_bindRow env r) fun more => ?_
  exact keeps_when (keeps_later fun _ => ⟨rfl, le_rfl, rfl⟩) fun _ => keeps_pure _

theorem steady_stepRun (env : Environment) : Steady (stepRun env : ResultM σ Bool) := by
  apply steady_of
  intro r
  rw [stepRun_eq]
  have hafter := steady_afterStep r (env.fails r.clock).isSome
  cases (r.handle.sqlite3Step (env.fails r.clock).isSome).1 with
  | done => exact steady_stepDone env r _ hafter
  | row | error => exact hafter

theorem steady_step (env : Environment) : Steady (step env : ResultM σ Unit) := by
  intro r s hs
  exact keeps_loop (fun _ => keeps_bind (steady_stepRun env r) fun _ => keeps_pure _) _ () s hs

theorem steady_fetchRound (env : Environment) (data : DbDataFrame) :
    Steady (fetchRound env data : ResultM σ _) := by
  intro r
  refine keeps_bind keeps_get fun s => ?_
  refine keeps_ite (keeps_pure _) ?_
  refine keeps_bind (steady_liftExcept _ r) fun data => ?_
  refine keeps_bind (steady_step env r) fun _ => ?_
  refine keeps_bind (keeps_later fun _ => ⟨rfl, le_rfl, rfl⟩) fun _ => ?_
  refine keeps_ite (keeps_bind (steady_chance env r) fun failure => ?_) (keeps_pure _)
  exact keeps_check (keeps_pure _)

theorem steady_fetchLoop (env : Environment) (data : DbDataFrame) :
    Steady (fetchLoop env data : ResultM σ _) := by
  intro r s hs
  exact keeps_loop (fun data => steady_fetchRound env data r) _ data s hs

theorem steady_fetch (env : Environment) (nMax : Int) :
    Steady (fetch env nMax : ResultM σ Fetched) := by
  intro r
  have hretype : ∀ types, Keeps (Later r)
      (modify fun r => { r with types := types } : ResultM σ PUnit) :=
    fun types => keeps_later fun _ => ⟨rfl, le_rfl, rfl⟩
  have hdata : ∀ x : Except Fault DbDataFrame, Keeps (Later r) (do
      let data ← liftExcept x
      let p ← liftExcept data.getData
      modify fun r => { r with types := p.2 }
      return p.1 : ResultM σ Fetched) := by
    intro x
    refine keeps_bind (steady_liftExcept x r) fun data => ?_
    refine keeps_bind (steady_liftExcept _ r) fun out => ?_
    exact keeps_bind (hretype out.2) fun _ => keeps_pure _
  refine keeps_bind keeps_get fun s => keeps_check (keeps_ite ?_ ?_)
  · refine keeps_bind keeps_get fun s => ?_
    refine keeps_bind (steady_fetchLoop env _ r) fun data => ?_
    refine keeps_bind (steady_liftExcept _ r) fun out => ?_
    exact keeps_bind (hretype out.2) fun _ => keeps_pure _
  · refine keeps_bind keeps_get fun s => ?_
    exact keeps_ite (hdata (.ok _)) (hdata _)

/-- What `n_rows_affected` subtracts is what was counted; a result that is on a row is
ready. -/
structure Sound (r : SqliteResult σ) (counted : Nat) : Prop where
  exact : r.handle.totalChanges = r.totalChangesStart + counted
  current : r.handle.cursor ≠ none → r.ready = true

theorem nRowsAffected_sound {r : SqliteResult σ} {counted : Nat} (h : Sound r counted)
    (hready : r.ready = true) : r.nRowsAffected = some (counted : Int) := by
  rw [nRowsAffected, if_pos hready, h.exact]
  simp

theorem sound_later {o : OpenResult σ} {r r' : SqliteResult σ} (h : Sound r o.counted)
    (hlater : Later r r') (hready : r.ready = true) : Sound r' (moreCounted o r r') where
  exact := by
    have htotal := hlater.total
    rw [moreCounted, hlater.start]
    have hexact := h.exact
    omega
  current _ := hlater.ready.trans hready

theorem sound_fetch (env : Environment) (nMax : Int) {o : OpenResult σ} {r : SqliteResult σ}
    (h : Sound r o.counted) :
    Ends (fun _ r' => Sound r' (moreCounted o r r')) (fun _ r' => Sound r' (moreCounted o r r'))
      (fetch env nMax r) := by
  cases hready : r.ready with
  | false =>
    rw [fetch_notReady env nMax r hready]
    refine ⟨?_, h.current⟩
    rw [moreCounted, Nat.sub_self]
    exact h.exact
  | true =>
    have hlater := steady_fetch env nMax r r (later_refl r)
    exact ends_mono hlater (fun _ _ hr' => sound_later h hr' hready)
      fun _ _ hr' => sound_later h hr' hready

theorem steady_afterBind (env : Environment) (more : Bool) {r : SqliteResult σ} :
    Ends (fun _ r' => r'.totalChangesStart = r.totalChangesStart ∧
        r.handle.totalChanges ≤ r'.handle.totalChanges ∧ r'.ready = true)
      (fun _ r' => r'.totalChangesStart = r.totalChangesStart ∧
        r.handle.totalChanges ≤ r'.handle.totalChanges ∧ r'.ready = true)
      (afterBind env more r) := by
  have hrun : Keeps (Later (initialized r more)) (do if more then step env : ResultM σ Unit) :=
    keeps_ite (steady_step env _) (keeps_pure _)
  have hends := hrun _ (later_refl (initialized r more))
  exact ends_mono hends (fun _ _ h => ⟨h.start, h.total, h.ready⟩)
    fun _ _ h => ⟨h.start, h.total, h.ready⟩

variable {asText : Param → Param} {params : RList Param} {ps : List Param}

theorem dbBindResult_accepted (env : Environment) {r : SqliteResult σ}
    (h : accepted asText params r = some ps) :
    Accepts r ps ∧ ∃ warnings, dbBindResult env asText false params r = (do
      let more ← bindRow env
      afterBind env more
      return warnings : ResultM σ (List String)) (withParams r ps) := by
  rw [accepted] at h
  cases hbind : Placeholders.dbBind asText r.getPlaceholderNames false params with
  | error message => simp [hbind] at h
  | ok p =>
    obtain ⟨qs, warnings⟩ := p
    cases hvalid : validateParams qs with
    | error e => simp [hbind, hvalid] at h
    | ok u =>
      simp only [hbind, hvalid] at h
      split at h
      · cases h
      rename_i hcount
      push Not at hcount
      cases h
      have haccepts : Accepts r ps := ⟨hvalid, hcount⟩
      refine ⟨haccepts, warnings, ?_⟩
      rw [dbBindResult_ok hbind]
      simp only [bind_apply, dbBind_accepted env ps r haccepts]
      cases bindRow env (withParams r ps) <;> rfl

theorem dbBindResult_refused (env : Environment) {r : SqliteResult σ}
    (h : accepted asText params r = none) :
    ∃ e, dbBindResult env asText false params r = .error e r := by
  cases hbind : Placeholders.dbBind asText r.getPlaceholderNames false params with
  | error message => exact ⟨.stop message, dbBindResult_error hbind⟩
  | ok p =>
    obtain ⟨qs, warnings⟩ := p
    have hrefused : ¬Accepts r qs := by
      rintro ⟨hvalid, hcount⟩
      simp [accepted, hbind, hvalid, hcount] at h
    obtain ⟨e, he⟩ := dbBind_refused env qs r hrefused
    exact ⟨e, (dbBindResult_ok hbind).trans (bind_error he)⟩

/-- A binding with at least one row is preceded by a reset. -/
theorem countWhenBound_eq (env : Environment) (ps : List Param) (r : SqliteResult σ) :
    countWhenBound env ps r =
      r.handle.totalChanges + (if groupCount ps = 0 then 0 else pendingChanges r) := by
  have hgroups : (ps.head?.map Param.length).getD 0 = groupCount ps := rfl
  rw [countWhenBound, hgroups]
  by_cases h : groupCount ps = 0
  · rw [bindRow_last env _ h.le, if_pos h]
    rfl
  · have hrow := bindRow_rebound env { r with params := ps, groups := groupCount ps, group := 0 }
      (Nat.pos_of_ne_zero h)
    rw [if_neg h]
    cases hrun : bindRow env { r with params := ps, groups := groupCount ps, group := 0 } with
    | ok more s =>
      rw [hrun] at hrow
      obtain ⟨-, bindings, clock, rfl⟩ := hrow
      rfl
    | error e s =>
      rw [hrun] at hrow
      obtain ⟨bindings, clock, rfl⟩ := hrow
      rfl

/-- What a binding leaves of the counts. -/
structure Counts (env : Environment) (ps : List Param) (r r' : SqliteResult σ) : Prop where
  start : r'.totalChangesStart = r.handle.totalChanges
  total : countWhenBound env ps r ≤ r'.handle.totalChanges
  current : r'.handle.cursor ≠ none → r'.ready = true
  ready : r.ready = true → r'.ready = true

theorem afterBind_counts (env : Environment) (warnings : List String) {r s : SqliteResult σ}
    (hstart : s.totalChangesStart = r.handle.totalChanges)
    (htotal : s.handle.totalChanges = countWhenBound env ps r) (more : Bool) :
    Ends (fun _ r' => Counts env ps r r') (fun _ r' => Counts env ps r r')
      ((do afterBind env more; return warnings : ResultM σ (List String)) s) := by
  have hcounts : ∀ r' : SqliteResult σ, r'.totalChangesStart = s.totalChangesStart ∧
      s.handle.totalChanges ≤ r'.handle.totalChanges ∧ r'.ready = true → Counts env ps r r' := by
    rintro r' ⟨hstart', htotal', hready⟩
    exact ⟨hstart'.trans hstart, htotal ▸ htotal', fun _ => hready, fun _ => hready⟩
  have hafter := steady_afterBind env more (r := s)
  exact ends_bind (ends_mono hafter (fun _ r' => hcounts r') fun _ r' => hcounts r')
    fun _ _ hr' => hr'

theorem dbBindResult_counts (env : Environment) {r : SqliteResult σ}
    (h : accepted asText params r = some ps) :
    Ends (fun _ r' => Counts env ps r r') (fun _ r' => Counts env ps r r')
      (dbBindResult env asText false params r) := by
  obtain ⟨-, warnings, hrun⟩ := dbBindResult_accepted env h
  rw [hrun]
  by_cases hcount : groupCount ps = 0
  · have hrow : bindRow env (withParams r ps) = .ok false (withParams r ps) :=
      bindRow_last env _ (by simp [withParams, hcount])
    rw [bind_ok hrow]
    refine afterBind_counts env warnings rfl ?_ false
    rw [countWhenBound_eq, if_pos hcount]
    rfl
  · have htotal : countWhenBound env ps r = r.handle.totalChanges + pendingChanges r := by
      rw [countWhenBound_eq, if_neg hcount]
    refine ends_bind (ends_mono (bindRow_rebound env (withParams r ps) (Nat.pos_of_ne_zero hcount))
      (fun _ _ hrow => hrow) ?_) ?_
    · rintro - r' ⟨bindings, clock, rfl⟩
      exact ⟨rfl, htotal.le, fun hcursor => absurd rfl hcursor, fun hready => hready⟩
    · rintro more r' ⟨-, bindings, clock, rfl⟩
      exact afterBind_counts env warnings rfl htotal.symm more

/-- A binding with rows of a result that is not in the middle of a change. -/
def Settled (asText : Param → Param) (params : RList Param) (r : SqliteResult σ) : Prop :=
  ∀ ps, accepted asText params r = some ps → 0 < groupCount ps → pendingChanges r = 0

theorem sound_bind (env : Environment) {o : OpenResult σ} {r : SqliteResult σ}
    (h : Sound r o.counted) (hsettled : Settled asText params r) :
    Ends (fun _ r' => Sound r' (countedSinceBind env asText params o r r'))
      (fun _ r' => Sound r' (countedSinceBind env asText params o r r'))
      (dbBindResult env asText false params r) := by
  cases haccepted : accepted asText params r with
  | none =>
    obtain ⟨e, he⟩ := dbBindResult_refused env haccepted
    rw [he]
    refine ⟨?_, h.current⟩
    rw [countedSinceBind, haccepted]
    simp only [moreCounted, Nat.sub_self, Nat.add_zero, h.exact]
  | some ps =>
    have hcount : countWhenBound env ps r = r.handle.totalChanges := by
      rw [countWhenBound_eq]
      split
      · rfl
      · rename_i hpos
        rw [hsettled ps haccepted (Nat.pos_of_ne_zero hpos), Nat.add_zero]
    have hsound : ∀ r', Counts env ps r r' →
        Sound r' (countedSinceBind env asText params o r r') := by
      intro r' hr'
      refine ⟨?_, hr'.current⟩
      have htotal := hr'.total
      rw [countedSinceBind, haccepted]
      simp only [hcount, hr'.start] at htotal ⊢
      omega
    have hcounts := dbBindResult_counts env haccepted
    exact ends_mono hcounts (fun _ => hsound) fun _ => hsound

/-- A binding that ends an execution in the middle of a change counts this change for the
new one. -/
theorem nRowsAffected_unsettled (env : Environment) {o : OpenResult σ} {r : SqliteResult σ}
    (h : Sound r o.counted) (hsettled : ¬Settled asText params r) :
    Ends (fun _ r' => r'.ready = true ∧
        r'.nRowsAffected ≠ some (countedSinceBind env asText params o r r' : Int))
      (fun _ r' => r'.ready = true ∧
        r'.nRowsAffected ≠ some (countedSinceBind env asText params o r r' : Int))
      (dbBindResult env asText false params r) := by
  rw [Settled] at hsettled
  push Not at hsettled
  obtain ⟨ps, haccepted, hrows, hpending⟩ := hsettled
  have hready : r.ready = true := by
    apply h.current
    intro hcursor
    simp [pendingChanges, hcursor] at hpending
  have hcount : countWhenBound env ps r = r.handle.totalChanges + pendingChanges r := by
    rw [countWhenBound_eq, if_neg (Nat.pos_iff_ne_zero.mp hrows)]
  have hwrong : ∀ r', Counts env ps r r' → r'.ready = true ∧
      r'.nRowsAffected ≠ some (countedSinceBind env asText params o r r' : Int) := by
    intro r' hr'
    have htotal := hr'.total
    have hready' := hr'.ready hready
    refine ⟨hready', ?_⟩
    rw [nRowsAffected, if_pos hready', hr'.start, countedSinceBind, haccepted]
    simp only [hcount, ne_eq, Option.some.injEq] at htotal ⊢
    omega
  have hcounts := dbBindResult_counts env haccepted
  exact ends_mono hcounts (fun _ => hwrong) fun _ => hwrong

/-- A result that has just been created is not on a row if it can be bound. -/
theorem sound_create (env : Environment) (stmt : Stmt σ) (db : σ) (totalChanges : Nat)
    (withAltTypes : Bool) {r : SqliteResult σ} {u : Unit}
    (h : create env (initial stmt db totalChanges withAltTypes) = .ok u r) :
    Sound r (r.handle.totalChanges - totalChanges) ∧ (r.nparams ≠ 0 → pendingChanges r = 0) := by
  by_cases h0 : stmt.parameters = []
  · have hspec := create_spec env stmt db totalChanges withAltTypes h0
    have hcounts := steady_afterBind env true (r := initial stmt db totalChanges withAltTypes)
    have hrun : create env (initial stmt db totalChanges withAltTypes) =
        afterBind env true (initial stmt db totalChanges withAltTypes) := by
      simp [create, nparams, initial, Handle.prepared, h0]
    rw [h] at hspec
    rw [← hrun, h] at hcounts
    obtain ⟨hstart, htotal, hready⟩ := hcounts
    have htotal' : totalChanges ≤ r.handle.totalChanges := htotal
    refine ⟨⟨?_, fun _ => hready⟩, fun hparams => absurd ?_ hparams⟩
    · rw [hstart]
      show _ = totalChanges + _
      omega
    · rw [nparams, hspec.2.2, h0]
      rfl
  · have hrun := create_params env (initial stmt db totalChanges withAltTypes)
      (by simpa [nparams, initial, Handle.prepared] using h0)
    rw [hrun] at h
    cases h
    refine ⟨⟨?_, fun hcursor => absurd rfl hcursor⟩, fun _ => rfl⟩
    show totalChanges = totalChanges + (totalChanges - totalChanges)
    omega

end RSQLCipher.RowsAffected
