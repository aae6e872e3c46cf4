import RSQLCipher.Association
import RSQLCipher.LiveResults

namespace RSQLCipher.PreparedQueries

open RSQLCipher.Library RSQLCipher.Values RSQLCipher.Statement RSQLCipher.Params
open RSQLCipher.DataFrame RSQLCipher.ResultImpl RSQLCipher.Placeholders RSQLCipher.Association
open RSQLCipher.Connections RSQLCipher.LiveResults RSQLCipher.Stepping RSQLCipher.Course
open RSQLCipher.Fetching RSQLCipher.Binding RSQLCipher.Sessions RSQLCipher.Batching SqliteResult

variable {σ α : Type}

def unname (params : RList α) : RList α where
  values := params.values
  names := none
  sameLength _ h := by cases h

/-- `tryCatch(x, error = function(e) handler)`: an interrupt is not an error. -/
def tryCatchError (x handler : ConnectionM σ α) : ConnectionM σ α := fun c =>
  match x c with
  | .ok a c => .ok a c
  | .error .interrupt c => .error .interrupt c
  | .error _ c => handler c

section Source

variable (asText : Param → Param) (env : Environment) (prepare : σ → Except String (Stmt σ))

/-- `db_bind`, whose warnings are left out. -/
def bindList (res : Nat) (params : RList Param) (allowNamedSuperset : Bool) : ConnectionM σ Unit := do
  let _ ← onResult res (dbBindResult env asText allowNamedSuperset params)
    (countedSinceBind env asText params)

def bindFallback (res : Nat) (bindData : RList Param) : ConnectionM σ Unit :=
  tryCatchError (bindList asText env res bindData true)
    (bindList asText env res (unname bindData) false)

def dbSendPreparedQuery (bindData : RList Param) : ConnectionM σ Nat := do
  let res ← dbSendQuery asText env prepare none
  bindFallback asText env res bindData
  return res

/-- What `dbGetPreparedQuery` does before it clears the result on exit. -/
def getPreparedQuery (bindData : RList Param) :
    EStateM Fault (Frame Fault (Connection σ)) Fetched := do
  let res ← (dbSendQuery asText env prepare none : ConnectionM σ Nat)
  onExit (some (dbClearResult res))
  (bindFallback asText env res bindData : ConnectionM σ Unit)
  (dbFetch env res (-1) : ConnectionM σ Fetched)

def dbGetPreparedQuery (bindData : RList Param) : ConnectionM σ Fetched :=
  function (getPreparedQuery asText env prepare bindData)

/-- The connection in a call of `dbGetPreparedQuery`, when all but the clearing is done. -/
def beforeClear (bindData : RList Param) (c : Connection σ) : Connection σ :=
  match getPreparedQuery asText env prepare bindData { state := c, exit := none } with
  | .ok _ f | .error _ f => f.state

end Source

/-- The executions of a result that have begun. -/
def begun (c : Connection σ) (i : Nat) : List (List Cell) :=
  (c.opened i).elim [] (·.result.handle.begun)

def texts (stmt : Stmt σ) : List String :=
  stmt.parameters.map fun name => (name.map fun s => String.ofList (s.toList.drop 1)).getD ""

/-- The list that is bound: that of the call with names, or, if it is refused, that of the
call without. -/
def chosen (asText : Param → Param) (names : List String) (bindData : RList Param) : List Param :=
  match dbBind asText names true bindData with
  | .ok (params, _) => params
  | .error _ =>
    match dbBind asText names false (unname bindData) with
    | .ok (params, _) => params
    | .error _ => []

/-- The rows that are executed are the first rows of the list that is bound, in order. -/
def RowsOnce (asText : Param → Param) (stmt : Stmt σ) (bindData : RList Param) (i : Nat)
    (c : Connection σ) : Prop :=
  begun c i <+: allGroups (chosen asText (texts stmt) bindData)

/-- Whatever fails, each row is executed at most once, and in order, and at the end
`dbGetPreparedQuery` only clears its result; a call without names is refused if the one with
names has begun to execute. -/
structure ExecutesOnce (asText : Param → Param) (env : Environment)
    (prepare : σ → Except String (Stmt σ)) (stmt : Stmt σ) (bindData : RList Param)
    (c : Connection σ) : Prop where
  send : Ends (fun _ => RowsOnce asText stmt bindData c.results.length)
    (fun _ => RowsOnce asText stmt bindData c.results.length)
    (dbSendPreparedQuery asText env prepare bindData c)
  get : RowsOnce asText stmt bindData c.results.length (beforeClear asText env prepare bindData c)
  clear : left (dbGetPreparedQuery asText env prepare bindData c) =
      beforeClear asText env prepare bindData c ∨
    left (dbGetPreparedQuery asText env prepare bindData c) =
      left (dbClearResult c.results.length (beforeClear asText env prepare bindData c))
  retry : ∀ res c₁ e c₂, dbSendQuery asText env prepare none c = .ok res c₁ →
    bindList asText env res bindData true c₁ = .error e c₂ → begun c₂ res ≠ [] →
    ∃ message, dbBind asText (texts stmt) false (unname bindData) = .error message

/-- The connection is open, and its result, if it has one, can be cleared. -/
def CanSend (c : Connection σ) : Prop := c.valid = true ∧ ∀ i, c.ref = some i → dbIsValid c i = true

/-- A row can be executed, and twice: the placeholders are anonymous, or numbers, and the list
has no names, is as long as they are, and has a first row that can be bound. -/
structure Repeatable (asText : Param → Param) (stmt : Stmt σ) (bindData : RList Param) : Prop where
  nameless : bindData.names = none
  kind : ∃ k, k ≠ .name ∧ ∀ a ∈ texts stmt, kindOf a = k
  valid : validateParams (bindData.values.map asText) = .ok ()
  length : bindData.values.length = stmt.parameters.length
  row : 0 < groupCount (bindData.values.map asText)
  bound : groupBindings (bindData.values.map asText) 0 ≠ none

section Results

variable {asText : Param → Param} {env : Environment} {stmt : Stmt σ} {groups : List (List Cell)}
  {params : List Param} {r r' : SqliteResult σ}

/-- A result of the statement, of which some first groups of a list have begun. -/
structure Executed (stmt : Stmt σ) (groups : List (List Cell)) (r : SqliteResult σ) : Prop where
  sized : Sized r
  stmt : r.handle.stmt = stmt
  begun : r.handle.begun <+: groups

/-- What lies ahead are groups of the list, too. -/
structure Scheduled (stmt : Stmt σ) (groups : List (List Cell)) (r : SqliteResult σ) : Prop where
  executed : Executed stmt groups r
  plan : plan r <+: groups

theorem executed_of_nil (h : Executed stmt [] r) (groups : List (List Cell)) :
    Executed stmt groups r := ⟨h.sized, h.stmt, h.begun.trans List.nil_prefix⟩

theorem scheduled_of_nil (h : Scheduled stmt [] r) (groups : List (List Cell)) :
    Scheduled stmt groups r := ⟨executed_of_nil h.executed groups, h.plan.trans List.nil_prefix⟩

theorem getPlaceholderNames_eq (h : r.handle.stmt = stmt) : r.getPlaceholderNames = texts stmt := by
  rw [getPlaceholderNames, texts, h]

/-- Nothing can be executed for the list, since it is refused or has no first group. -/
def Idle (stmt : Stmt σ) (params : List Param) : Prop :=
  validateParams params = .ok () → params.length = stmt.parameters.length → allGroups params = []

theorem dbBind_executes (h : Executed stmt [] r) (params : List Param) :
    Ends (fun _ r' => Scheduled stmt (allGroups params) r')
      (fun _ r' => Executed stmt (allGroups params) r') (SqliteResult.dbBind env params r) := by
  have hnone : r.handle.begun = [] := List.prefix_nil.mp h.begun
  by_cases ha : Accepts r params
  · refine ends_mono (dbBind_spec env params r h.sized ha) ?_ ?_
    · rintro - r' hbound
      have hplan := hbound.ready.plan
      rw [hnone, List.nil_append] at hplan
      have hbegun := begun_prefix_plan r'
      rw [hplan] at hbegun
      exact ⟨⟨hbound.ready.sized, hbound.stmt.trans h.stmt, hbegun⟩, hplan ▸ List.prefix_refl _⟩
    · rintro - r' hfailed
      have hbegun := hfailed.begun
      rw [hnone, List.nil_append] at hbegun
      exact ⟨hfailed.sized, hfailed.stmt.trans h.stmt, hbegun⟩
  · obtain ⟨e, he⟩ := dbBind_refused env params r ha
    rw [he]
    exact executed_of_nil h _

theorem dbBind_idle (h : Executed stmt [] r) (hidle : Idle stmt params) :
    Ends (fun _ r' => Scheduled stmt [] r') (fun _ r' => Executed stmt [] r')
      (SqliteResult.dbBind env params r) := by
  by_cases ha : Accepts r params
  · have hnil := hidle ha.1 (by rw [← h.stmt]; exact ha.2.2)
    rw [← hnil]
    exact dbBind_executes h params
  · obtain ⟨e, he⟩ := dbBind_refused env params r ha
    rw [he]
    exact h

theorem fetch_scheduled (h : Scheduled stmt groups r) :
    Ends (fun _ r' => Executed stmt groups r') (fun _ r' => Executed stmt groups r')
      (fetch env (-1) r) := by
  cases hready : r.ready with
  | false =>
    rw [fetch_notReady env (-1) r hready]
    exact h.executed
  | true =>
    refine ends_mono (fetch_spec env (-1) (by decide) r h.executed.sized hready) ?_ ?_
    · intro out r' hreturned
      have hsized := sized_returned h.executed.sized hreturned
      obtain ⟨s, types, hdelivered, rfl⟩ := hreturned.delivered
      refine ⟨hsized, hdelivered.ahead.kept.stmt.trans h.executed.stmt, ?_⟩
      have hbegun := begun_prefix_plan s
      rw [hdelivered.ahead.plan] at hbegun
      exact hbegun.trans h.plan
    · intro e r' hlost
      obtain ⟨m, hkept⟩ := hlost.kept
      exact ⟨sized_lost h.executed.sized hlost, hkept.stmt.trans h.executed.stmt,
        hlost.begun.trans h.plan⟩

end Results

section Kinds

variable {asText : Param → Param} {names : List String} {bindData : RList Param}

/-- If both calls get past the checks, the list has no names, and both bind it as it is. -/
theorem dbBind_twice {stmt : Stmt σ} {params params' : List Param} {warnings warnings' : List String}
    (h0 : texts stmt ≠ []) (h : dbBind asText (texts stmt) true bindData = .ok (params, warnings))
    (h' : dbBind asText (texts stmt) false (unname bindData) = .ok (params', warnings')) :
    bindData.names = none ∧ (∃ k, k ≠ .name ∧ ∀ a ∈ texts stmt, kindOf a = k) ∧
      params = bindData.values.map asText ∧ params' = bindData.values.map asText := by
  have hunmixed : ¬Mixed (texts stmt) := by
    intro hmixed
    obtain ⟨message, he⟩ := dbBind_mixed hmixed
    exact absurd (h.symm.trans he) nofun
  obtain ⟨k, hk⟩ := not_mixed hunmixed
  rw [dbBind_unmixed hk] at h h'
  by_cases hname : k = .name
  · have hmissing : paramIndexes (texts stmt) (unname bindData) = none := by
      obtain ⟨a, ha⟩ := List.exists_mem_of_ne_nil _ h0
      exact paramIndexes_eq_none.mpr ⟨a, ha, List.not_mem_nil⟩
    simp [hname, bindNamed, hmissing] at h'
  · rw [if_pos ⟨h0, hname⟩] at h h'
    cases hnames : bindData.names with
    | some ns =>
      rw [hnames] at h
      cases h
    | none =>
      rw [hnames] at h
      cases h
      cases h'
      exact ⟨rfl, ⟨k, hname, hk⟩, rfl, rfl⟩

end Kinds

section Binding

variable {asText : Param → Param} {env : Environment} {stmt : Stmt σ} {bindData : RList Param}
  {c : Connection σ} {res : Nat}

/-- A result as it sees its connection, if it is open. -/
def Sees (i : Nat) (p : SqliteResult σ → Prop) (c : Connection σ) : Prop :=
  ∀ o, c.opened i = some o → p (c.attach o.result)

theorem sees_mono {p q : SqliteResult σ → Prop} (h : Sees res p c) (hpq : ∀ r, p r → q r) :
    Sees res q c := fun o ho => hpq _ (h o ho)

theorem begun_sees {groups : List (List Cell)} (h : Sees res (Executed stmt groups) c) :
    begun c res <+: groups := by
  unfold begun
  cases ho : c.opened res with
  | none => exact List.nil_prefix
  | some o => exact (h o ho).begun

theorem sees_save {o o' : OpenResult σ} {p : SqliteResult σ → Prop} (ho : c.opened res = some o)
    (h : p o'.result) : Sees res p (c.save res o') := by
  intro o₁ ho₁
  rw [opened_save ho, if_pos rfl] at ho₁
  cases ho₁
  exact h

theorem sees_onResult {x : ResultM σ α}
    {counted : OpenResult σ → SqliteResult σ → SqliteResult σ → Nat} {p : SqliteResult σ → Prop} {post : α → SqliteResult σ → Prop}
    {raised : Fault → SqliteResult σ → Prop} (h : Sees res p c)
    (hx : ∀ r, p r → Ends post raised (x r)) :
    Ends (fun a => Sees res (post a)) (fun e => Sees res (raised e)) (onResult res x counted c) := by
  refine ends_onResult (fun hnone o ho => ?_) fun o ho => ?_
  · rw [hnone] at ho
    cases ho
  · exact ends_mono (hx _ (h o ho)) (fun _ _ hr => sees_save ho hr) fun _ _ hr => sees_save ho hr

theorem ends_tryCatchError {x handler : ConnectionM σ α} {post : α → Connection σ → Prop}
    {mid raised : Connection σ → Prop} (hx : Ends post (fun _ => mid) (x c))
    (hinterrupt : ∀ c', mid c' → raised c')
    (hhandler : ∀ e c', x c = .error e c' → mid c' → Ends post (fun _ => raised) (handler c')) :
    Ends post (fun _ => raised) (tryCatchError x handler c) := by
  rw [tryCatchError]
  cases hrun : x c with
  | ok a c' =>
    rw [hrun] at hx
    exact hx
  | error e c' =>
    rw [hrun] at hx
    cases e with
    | interrupt => exact hinterrupt c' hx
    | stop message => exact hhandler _ c' hrun hx
    | outOfBounds => exact hhandler _ c' hrun hx
    | wrongType => exact hhandler _ c' hrun hx
    | recursion => exact hhandler _ c' hrun hx

theorem bindList_ends {allow : Bool} {p post raised : SqliteResult σ → Prop} (h : Sees res p c)
    (hx : ∀ r, p r →
      Ends (fun _ => post) (fun _ => raised) (dbBindResult env asText allow bindData r)) :
    Ends (fun _ => Sees res post) (fun _ => Sees res raised)
      (bindList asText env res bindData allow c) :=
  ends_bind (sees_onResult h hx) fun _ _ hc => hc

/-- A call that is refused by the checks leaves the result as it is. -/
theorem bindList_refused {allow : Bool} {message : String} {groups : List (List Cell)}
    (h : Sees res (Executed stmt groups) c)
    (herror : dbBind asText (texts stmt) allow bindData = .error message)
    (post : Connection σ → Prop) :
    Ends (fun _ => post) (fun _ => Sees res (Executed stmt groups))
      (bindList asText env res bindData allow c) := by
  cases ho : c.opened res with
  | none =>
    rw [bindList, bind_error (onResult_none ho)]
    exact h
  | some o =>
    have hexecuted := h o ho
    rw [← getPlaceholderNames_eq hexecuted.stmt] at herror
    rw [bindList, bind_error (onResult_error ho (dbBindResult_error herror))]
    exact sees_save ho hexecuted

theorem bindList_executes {allow : Bool} {params : List Param} {warnings : List String}
    (h : Sees res (Executed stmt []) c)
    (hok : dbBind asText (texts stmt) allow bindData = .ok (params, warnings)) :
    Ends (fun _ => Sees res (Scheduled stmt (allGroups params)))
      (fun _ => Sees res (Executed stmt (allGroups params)))
      (bindList asText env res bindData allow c) := by
  refine bindList_ends h fun r hr => ?_
  rw [← getPlaceholderNames_eq hr.stmt] at hok
  rw [dbBindResult_ok hok]
  exact ends_bind (dbBind_executes hr params) fun _ _ hr' => hr'

theorem bindList_idle {allow : Bool} {params : List Param} {warnings : List String}
    (h : Sees res (Executed stmt []) c)
    (hok : dbBind asText (texts stmt) allow bindData = .ok (params, warnings))
    (hidle : Idle stmt params) :
    Ends (fun _ => Sees res (Scheduled stmt [])) (fun _ => Sees res (Executed stmt []))
      (bindList asText env res bindData allow c) := by
  refine bindList_ends h fun r hr => ?_
  rw [← getPlaceholderNames_eq hr.stmt] at hok
  rw [dbBindResult_ok hok]
  exact ends_bind (dbBind_idle hr hidle) fun _ _ hr' => hr'

theorem allGroups_ne_nil {params : List Param} :
    allGroups params ≠ [] ↔ 0 < groupCount params ∧ groupBindings params 0 ≠ none := by
  rw [allGroups]
  cases groupCount params with
  | zero => simp [boundGroups]
  | succ n =>
    rw [boundGroups]
    cases groupBindings params 0 with
    | none | some b => simp

/-- If both calls get past the checks, neither can execute a row. -/
theorem idle_of_twice {params params' : List Param} {warnings warnings' : List String}
    (h0 : texts stmt ≠ []) (hnot : ¬Repeatable asText stmt bindData)
    (h : dbBind asText (texts stmt) true bindData = .ok (params, warnings))
    (h' : dbBind asText (texts stmt) false (unname bindData) = .ok (params', warnings')) :
    params' = params ∧ Idle stmt params := by
  obtain ⟨hnames, hkind, rfl, rfl⟩ := dbBind_twice h0 h h'
  refine ⟨rfl, fun hvalid hlen => ?_⟩
  by_contra hne
  obtain ⟨hrow, hbound⟩ := allGroups_ne_nil.mp hne
  exact hnot ⟨hnames, hkind, hvalid, by simpa using hlen, hrow, hbound⟩

theorem bindFallback_spec (env : Environment) (h0 : texts stmt ≠ [])
    (hnot : ¬Repeatable asText stmt bindData) (h : Sees res (Executed stmt []) c) :
    Ends (fun _ => Sees res (Scheduled stmt (allGroups (chosen asText (texts stmt) bindData))))
      (fun _ => Sees res (Executed stmt (allGroups (chosen asText (texts stmt) bindData))))
      (bindFallback asText env res bindData c) := by
  have hexecuted : ∀ c', Sees res (Executed stmt []) c' →
      Sees res (Executed stmt (allGroups (chosen asText (texts stmt) bindData))) c' :=
    fun c' hc' => sees_mono hc' fun r hr => executed_of_nil hr _
  cases hfirst : dbBind asText (texts stmt) true bindData with
  | error message =>
    refine ends_tryCatchError (bindList_refused h hfirst _) hexecuted fun e c' _ hc' => ?_
    cases hsecond : dbBind asText (texts stmt) false (unname bindData) with
    | error message' =>
      exact ends_mono (bindList_refused hc' hsecond _) (fun _ _ h => h) fun _ c'' => hexecuted c''
    | ok p =>
      have hchosen : chosen asText (texts stmt) bindData = p.1 := by simp [chosen, hfirst, hsecond]
      rw [hchosen]
      exact bindList_executes hc' hsecond
  | ok p =>
    have hchosen : chosen asText (texts stmt) bindData = p.1 := by simp [chosen, hfirst]
    cases hsecond : dbBind asText (texts stmt) false (unname bindData) with
    | error message =>
      rw [hchosen]
      refine ends_tryCatchError (bindList_executes h hfirst) (fun _ hc' => hc') fun e c' _ hc' => ?_
      exact bindList_refused hc' hsecond _
    | ok p' =>
      obtain ⟨hsame, hidle⟩ := idle_of_twice h0 hnot hfirst hsecond
      have hscheduled : ∀ c', Sees res (Scheduled stmt []) c' →
          Sees res (Scheduled stmt (allGroups (chosen asText (texts stmt) bindData))) c' :=
        fun c' hc' => sees_mono hc' fun r hr => scheduled_of_nil hr _
      refine ends_tryCatchError (ends_mono (bindList_idle h hfirst hidle) (fun _ => hscheduled)
        fun _ _ hc' => hc') hexecuted fun e c' _ hc' => ?_
      rw [← hsame] at hidle
      exact ends_mono (bindList_idle hc' hsecond hidle) (fun _ => hscheduled) fun _ => hexecuted

end Binding

section Sending

variable {asText : Param → Param} {env : Environment} {prepare : σ → Except String (Stmt σ)}
  {stmt : Stmt σ} {bindData : RList Param} {c c' : Connection σ}

/-- What closing the result of a connection leaves alone. -/
structure Alongside (c c' : Connection σ) : Prop where
  db : c'.db = c.db
  valid : c'.valid = c.valid
  results : c'.results.length = c.results.length

theorem alongside_dbClearResult (i : Nat) :
    Keeps (Alongside c) (dbClearResult i : ConnectionM σ Unit) := by
  refine keeps_bind keeps_get fun c' => ?_
  refine keeps_ite (keeps_bind (keeps_modify fun c₁ h₁ => ?_) fun _ => keeps_modify fun c₁ h₁ => ?_)
    (keeps_pure _)
  · cases ho : c₁.opened i with
    | none => exact h₁
    | some o => exact ⟨h₁.db, h₁.valid, (List.length_set ..).trans h₁.results⟩
  · exact ⟨h₁.db, h₁.valid, h₁.results⟩

theorem alongside_closePending : Keeps (Alongside c) (closePending : ConnectionM σ Unit) := by
  refine keeps_bind keeps_get fun c' => ?_
  cases c'.ref with
  | none => exact keeps_pure _
  | some pending =>
    refine keeps_bind (alongside_dbClearResult pending) fun _ => ?_
    exact keeps_bind keeps_get fun c₁ => keeps_ite (keeps_throw _) (keeps_pure _)

theorem closePending_ok (h : CanSend c) : ∃ c', closePending c = .ok () c' := by
  cases href : c.ref with
  | none => exact ⟨c, by simp [closePending, href]⟩
  | some i =>
    have hvalid := h.2 i href
    obtain ⟨o, ho⟩ := Option.isSome_iff_exists.mp hvalid
    exact ⟨_, by simp [closePending, href, dbClearResult, hvalid, resultRelease, ho]; rfl⟩

theorem dbSendQuery_none : dbSendQuery asText env prepare none c =
    (do
      (closePending : ConnectionM σ Unit)
      let rs ← resultCreate env prepare
      modify fun c => { c with ref := some rs }
      return rs : ConnectionM σ Nat) c := by
  cases hclose : closePending c with
  | error e c₁ => simp [dbSendQuery, function, lift_apply, hclose, Frame.leave]
  | ok u c₁ =>
    cases hcreate : resultCreate env prepare c₁ with
    | error e c₂ => simp [dbSendQuery, function, lift_apply, hclose, hcreate, Frame.leave]
    | ok rs c₂ => simp [dbSendQuery, function, lift_apply, hclose, hcreate, Frame.leave]

/-- A result that has just been created. -/
def created (stmt : Stmt σ) (c : Connection σ) : OpenResult σ where
  result := initial stmt c.db c.totalChanges c.withAltTypes
  counted := 0

def sent (stmt : Stmt σ) (c : Connection σ) : Connection σ :=
  { c with results := c.results ++ [some (created stmt c)], ref := some c.results.length }

theorem opened_sent (stmt : Stmt σ) (c : Connection σ) :
    (sent stmt c).opened c.results.length = some (created stmt c) := by
  simp [Connection.opened, sent]

/-- A result with parameters is not executed when it is created. -/
theorem dbSendQuery_sent (asText : Param → Param) (env : Environment) (h0 : stmt.parameters ≠ [])
    {c₁ : Connection σ} (hclose : closePending c = .ok () c₁) (hvalid : c₁.valid = true)
    (hprepare : prepare c₁.db = .ok stmt) :
    dbSendQuery asText env prepare none c = .ok c₁.results.length (sent stmt c₁) := by
  have hcreate := create_params env (initial stmt c₁.db c₁.totalChanges c₁.withAltTypes)
    (by simpa [nparams, initial, Handle.prepared] using h0)
  have hresult : resultCreate env prepare c₁ = .ok c₁.results.length
      { c₁ with results := c₁.results ++ [some (created stmt c₁)] } := by
    rw [resultCreate, if_pos hvalid]
    simp only [hprepare, hcreate]
    simp [created, initial, Handle.prepared]
  rw [dbSendQuery_none, bind_ok hclose, bind_ok hresult]
  rfl

/-- A query with placeholders that is sent has begun no execution. -/
theorem dbSendQuery_spec (asText : Param → Param) (env : Environment) (h0 : stmt.parameters ≠ [])
    (hprepare : prepare c.db = .ok stmt) :
    Ends (fun res c' => res = c.results.length ∧ Sees res (Executed stmt []) c')
      (fun _ c' => c'.opened c.results.length = none) (dbSendQuery asText env prepare none c) := by
  have hfresh : ∀ c', Alongside c c' → c'.opened c.results.length = none := by
    intro c' h
    rw [Connection.opened, List.getElem?_eq_none h.results.le]
    rfl
  have hkeeps := alongside_closePending (c := c) c ⟨rfl, rfl, rfl⟩
  cases hclose : closePending c with
  | error e c₁ =>
    rw [hclose] at hkeeps
    rw [dbSendQuery_none, bind_error hclose]
    exact hfresh c₁ hkeeps
  | ok u c₁ =>
    rw [hclose] at hkeeps
    by_cases hvalid : c₁.valid = true
    · rw [dbSendQuery_sent asText env h0 hclose hvalid (hkeeps.db.symm ▸ hprepare)]
      refine ⟨hkeeps.results, fun o ho => ?_⟩
      obtain rfl := Option.some.inj ((opened_sent stmt c₁).symm.trans ho)
      exact ⟨sized_initial stmt _ _ _, rfl, List.nil_prefix⟩
    · have hclosed : resultCreate env prepare c₁ =
          .error (.stop "Invalid or closed connection") c₁ := by
        rw [resultCreate, if_neg hvalid]
      rw [dbSendQuery_none, bind_ok hclose, bind_error hclosed]
      exact hfresh c₁ hkeeps

theorem canSend_of_ok {res : Nat} (h : dbSendQuery asText env prepare none c = .ok res c') :
    CanSend c := by
  have hkeeps := alongside_closePending (c := c) c ⟨rfl, rfl, rfl⟩
  rw [dbSendQuery_none] at h
  cases hclose : closePending c with
  | error e c₁ =>
    rw [bind_error hclose] at h
    cases h
  | ok u c₁ =>
    rw [hclose] at hkeeps
    rw [bind_ok hclose] at h
    constructor
    · by_contra hvalid
      have hclosed : resultCreate env prepare c₁ =
          .error (.stop "Invalid or closed connection") c₁ := by
        rw [resultCreate, if_neg (hkeeps.valid ▸ hvalid)]
      rw [bind_error hclosed] at h
      cases h
    · intro i href
      by_contra hstale
      have hnone : c.opened i = none := by simpa [dbIsValid] using hstale
      have hthrows : closePending c = .error (.stop notNull) c := by
        simp [closePending, href, dbClearResult_stale hnone]
      rw [hthrows] at hclose
      cases hclose

theorem ends_lift_sees {x : ConnectionM σ α} {f : Frame Fault (Connection σ)} {res : Nat}
    {post : SqliteResult σ → Prop} {groups : List (List Cell)}
    (h : Ends (fun _ => Sees res post) (fun _ => Sees res (Executed stmt groups)) (x f.state)) :
    Ends (fun _ f' => Sees res post f'.state) (fun _ f' => begun f'.state res <+: groups)
      ((liftM x : EStateM Fault (Frame Fault (Connection σ)) α) f) :=
  ends_lift (ends_mono h (fun _ _ hc => hc) fun _ _ hc => begun_sees hc)

theorem getPreparedQuery_spec {c₁ : Connection σ} {groups : List (List Cell)} {res : Nat}
    (hrun : dbSendQuery asText env prepare none c = .ok res c₁)
    (hfallback : Ends (fun _ => Sees res (Scheduled stmt groups))
      (fun _ => Sees res (Executed stmt groups)) (bindFallback asText env res bindData c₁)) :
    Ends (fun _ f => begun f.state res <+: groups) (fun _ f => begun f.state res <+: groups)
      (getPreparedQuery asText env prepare bindData { state := c, exit := none }) := by
  have hsend : (liftM (dbSendQuery asText env prepare none : ConnectionM σ Nat) :
      EStateM Fault (Frame Fault (Connection σ)) Nat) { state := c, exit := none } =
      .ok res { state := c₁, exit := none } := by
    rw [lift_apply, hrun]
  rw [getPreparedQuery, bind_ok hsend, bind_ok (onExit_apply _ _)]
  refine ends_bind (ends_lift_sees hfallback) fun _ f h => ?_
  have hfetch : Ends (fun _ => Sees res (Executed stmt groups))
      (fun _ => Sees res (Executed stmt groups)) (dbFetch env res (-1) f.state) :=
    sees_onResult h fun r hr => fetch_scheduled hr
  exact ends_mono (ends_lift_sees hfetch) (fun _ _ hc => begun_sees hc) fun _ _ hc => hc

/-- What `dbGetPreparedQuery` adds to its body is the clearing of the result that was sent. -/
theorem dbGetPreparedQuery_apply (asText : Param → Param) (env : Environment)
    (prepare : σ → Except String (Stmt σ)) (bindData : RList Param) (c : Connection σ) :
    dbGetPreparedQuery asText env prepare bindData c =
      match dbSendQuery asText env prepare none c with
      | .error e c => .error e c
      | .ok res _ =>
        match getPreparedQuery asText env prepare bindData { state := c, exit := none } with
        | .ok out f =>
          match dbClearResult res f.state with
          | .ok _ c => .ok out c
          | .error e c => .error e c
        | .error e f =>
          match dbClearResult res f.state with
          | .ok _ c => .error e c
          | .error e c => .error e c := by
  simp only [dbGetPreparedQuery, getPreparedQuery, function, bind_apply, lift_apply, onExit_apply]
  cases dbSendQuery asText env prepare none c with
  | error e c₁ => rfl
  | ok res c₁ =>
    simp only
    cases bindFallback asText env res bindData c₁ with
    | error e c₂ =>
      simp only [Frame.leave]
      cases dbClearResult res c₂ with
      | ok u c₃ | error e' c₃ => rfl
    | ok u c₂ =>
      simp only
      cases dbFetch env res (-1) c₂ with
      | ok out c₃ | error e c₃ =>
        simp only [Frame.leave]
        cases dbClearResult res c₃ with
        | ok u c₄ | error e' c₄ => rfl

theorem left_dbGetPreparedQuery {res : Nat} {c₁ : Connection σ}
    (hrun : dbSendQuery asText env prepare none c = .ok res c₁) :
    left (dbGetPreparedQuery asText env prepare bindData c) =
      left (dbClearResult res (beforeClear asText env prepare bindData c)) := by
  rw [dbGetPreparedQuery_apply, hrun, beforeClear]
  cases getPreparedQuery asText env prepare bindData { state := c, exit := none } with
  | ok out f | error e f =>
    dsimp only
    cases dbClearResult res f.state with
    | ok u c₂ | error e' c₂ => rfl

/-- If the call with names has begun to execute, the one without them is refused. -/
theorem refused_of_begun (h0 : texts stmt ≠ []) (hnot : ¬Repeatable asText stmt bindData) {res : Nat}
    (hsees : Sees res (Executed stmt []) c) {e : Fault}
    (hbind : bindList asText env res bindData true c = .error e c') (hbegun : begun c' res ≠ []) :
    ∃ message, dbBind asText (texts stmt) false (unname bindData) = .error message := by
  have hnone : ¬Sees res (Executed stmt []) c' :=
    fun h => hbegun (List.prefix_nil.mp (begun_sees h))
  cases hsecond : dbBind asText (texts stmt) false (unname bindData) with
  | error message => exact ⟨message, rfl⟩
  | ok p' =>
    exfalso
    cases hfirst : dbBind asText (texts stmt) true bindData with
    | error message =>
      have hrefused : Ends (fun _ _ => True) (fun _ => Sees res (Executed stmt []))
          (bindList asText env res bindData true c) := bindList_refused hsees hfirst _
      rw [hbind] at hrefused
      exact hnone hrefused
    | ok p =>
      have hidle : Ends (fun _ => Sees res (Scheduled stmt [])) (fun _ => Sees res (Executed stmt []))
          (bindList asText env res bindData true c) :=
        bindList_idle hsees hfirst (idle_of_twice h0 hnot hfirst hsecond).2
      rw [hbind] at hidle
      exact hnone hidle

/-- Where no row can be executed by both calls, none is executed twice. -/
theorem executesOnce (h0 : stmt.parameters ≠ []) (hprepare : prepare c.db = .ok stmt)
    (hnot : ¬(CanSend c ∧ Repeatable asText stmt bindData)) :
    ExecutesOnce asText env prepare stmt bindData c := by
  have htexts : texts stmt ≠ [] := by simpa [texts] using h0
  have hspec := dbSendQuery_spec asText env h0 hprepare
  cases hrun : dbSendQuery asText env prepare none c with
  | error e c₁ =>
    rw [hrun] at hspec
    have hempty : RowsOnce asText stmt bindData c.results.length c₁ := by
      rw [RowsOnce, begun, hspec]
      exact List.nil_prefix
    have hsend : (liftM (dbSendQuery asText env prepare none : ConnectionM σ Nat) :
        EStateM Fault (Frame Fault (Connection σ)) Nat) { state := c, exit := none } =
        .error e { state := c₁, exit := none } := by
      rw [lift_apply, hrun]
    have hbefore : beforeClear asText env prepare bindData c = c₁ := by
      rw [beforeClear, getPreparedQuery, bind_error hsend]
    refine ⟨?_, ?_, ?_, ?_⟩
    · rw [dbSendPreparedQuery, bind_error hrun]
      exact hempty
    · rw [hbefore]
      exact hempty
    · -- without a result there is nothing to clear
      left
      rw [hbefore, dbGetPreparedQuery_apply, hrun]
      rfl
    · intro res c₂ e' c₃ hok
      rw [hrun] at hok
      cases hok
  | ok res c₁ =>
    rw [hrun] at hspec
    obtain ⟨rfl, hsees⟩ := hspec
    have hrepeat : ¬Repeatable asText stmt bindData := fun h => hnot ⟨canSend_of_ok hrun, h⟩
    have hfallback := bindFallback_spec env htexts hrepeat hsees
    have hbody := getPreparedQuery_spec hrun hfallback
    refine ⟨?_, ?_, .inr (left_dbGetPreparedQuery hrun), ?_⟩
    · rw [dbSendPreparedQuery, bind_ok hrun]
      have hkept := ends_mono hfallback (fun _ _ h => h) fun _ _ h => begun_sees h
      refine ends_bind hkept fun _ c₂ h => ?_
      exact begun_sees (sees_mono h fun r hr => hr.executed)
    · rw [RowsOnce, beforeClear]
      cases hget : getPreparedQuery asText env prepare bindData { state := c, exit := none } with
      | ok out f | error e f =>
        rw [hget] at hbody
        exact hbody
    · intro res c₂ e c₃ hok hbind hbegun
      rw [hrun] at hok
      cases hok
      exact refused_of_begun htexts hrepeat hsees hbind hbegun

end Sending

section Repeating

variable {asText : Param → Param} {env : Environment} {prepare : σ → Except String (Stmt σ)}
  {stmt : Stmt σ} {bindData : RList Param} {c : Connection σ}

/-- Nothing fails before a number of calls, and the next one does. -/
def failing (n : Nat) : Environment where
  access := FetchedValues.directAccess
  parsers := ⟨fun _ => none, fun _ => none, fun _ => none⟩
  fails k := if k = n then some "constraint failed" else none

/-- Each parameter that is bound counts as a call. -/
theorem clock_bindParameters (params : List Param) (j : Nat) (r : SqliteResult σ)
    (hcalls : ∀ k < r.clock + params.length, env.fails k = none)
    (hbound : groupBindings params r.group ≠ none) :
    Ends (fun _ r' => r'.clock = r.clock + params.length) (fun _ _ => False)
      (bindParameters env j params r) := by
  induction params generalizing j r with
  | nil => rfl
  | cons p params ih =>
    have hpos := bindParameterPos_eq env (j + 1) p r
    have hcalm : env.fails r.clock = none := hcalls _ (by simp)
    rw [groupBindings_cons] at hbound
    cases hcell : p.cell r.group with
    | error e =>
      rw [hcell] at hbound
      exact absurd rfl hbound
    | ok value =>
      rw [hcalm, hcell] at hpos
      rw [bindParameters, bind_ok hpos]
      have hcalls' : ∀ k < r.clock + 1 + params.length, env.fails k = none := by
        intro k hk
        apply hcalls
        rw [List.length_cons]
        omega
      have hbound' : groupBindings params r.group ≠ none := by
        intro hnone
        rw [hcell, hnone] at hbound
        exact hbound rfl
      refine ends_mono (ih (j + 1) _ hcalls' hbound') (fun _ r' hr' => ?_) fun _ _ h => h
      rw [hr']
      show r.clock + 1 + params.length = r.clock + (params.length + 1)
      omega

theorem clock_bindRow {r : SqliteResult σ} (h : r.group < r.groups)
    (hcalls : ∀ k < r.clock + r.params.length, env.fails k = none)
    (hbound : groupBindings r.params r.group ≠ none) :
    Ends (fun _ r' => r'.clock = r.clock + r.params.length) (fun _ _ => False) (bindRow env r) := by
  rw [bindRow_more env r h]
  exact ends_bind (clock_bindParameters r.params 0 _ hcalls hbound) fun _ _ hr' => hr'

theorem stepRun_fails {r : SqliteResult σ} {message : String} (h : env.fails r.clock = some message) :
    stepRun env r = .error (.stop message) (afterStep r true) := by
  obtain ⟨hcode, -, -⟩ := sqlite3Step_fails r.handle
  rw [stepRun_eq, h]
  simp [hcode]

theorem step_fails {r : SqliteResult σ} {message : String} (h : env.fails r.clock = some message) :
    step env r = .error (.stop message) (afterStep r true) := by
  have hround : stepRound env () r = .error (.stop message) (afterStep r true) :=
    bind_error (stepRun_fails h)
  exact loop_error hround _

theorem begun_afterStep {r : SqliteResult σ} (h : r.handle.cursor = none) :
    (afterStep r true).handle.begun = r.handle.begun ++ [r.handle.bindings] := by
  obtain ⟨-, hstepped, -⟩ := sqlite3Step_fails r.handle
  have hstarted : started r.handle = r.handle.begun ++ [r.handle.bindings] := by
    rw [started, h]
  exact hstepped.begun.trans hstarted

/-- The first row is bound, and its execution begins and fails. -/
theorem dbBind_begins {params : List Param} {r : SqliteResult σ} (h : Executed stmt [] r)
    (hclock : r.clock = 0) (ha : Accepts r params) (hrow : 0 < groupCount params)
    (hbound : groupBindings params 0 ≠ none) :
    ∃ r', SqliteResult.dbBind (failing params.length) params r =
      .error (.stop "constraint failed") r' ∧ r'.handle.begun ≠ [] := by
  have hclocks : Ends (fun _ r' => r'.clock = r.clock + params.length) (fun _ _ => False)
      (bindRow (failing params.length) (withParams r params)) := by
    refine clock_bindRow hrow (fun k hk => if_neg ?_) hbound
    rw [show (withParams r params).clock = 0 from hclock] at hk
    exact (hk.trans_eq (Nat.zero_add _)).ne
  have hspec := bindRow_spec (failing params.length) (withParams r params)
    (sized_withParams h.sized ha) hrow
  rw [dbBind_accepted _ params r ha]
  cases hrun : bindRow (failing params.length) (withParams r params) with
  | error e r₁ =>
    rw [hrun] at hclocks
    exact hclocks.elim
  | ok more r₁ =>
    rw [hrun] at hclocks hspec
    obtain ⟨rfl, b, k, -, rfl⟩ := hspec
    obtain rfl : k = params.length := by simpa [withBindings, hclock] using hclocks
    refine ⟨_, (bind_ok hrun).trans (step_fails (if_pos rfl)), ?_⟩
    rw [begun_afterStep]
    · exact List.append_ne_nil_of_right_ne_nil _ (List.cons_ne_nil b [])
    · rfl

/-- Both calls bind a list that can be executed twice as it is. -/
theorem dbBind_repeatable (h0 : texts stmt ≠ []) (h : Repeatable asText stmt bindData)
    (allow : Bool) {params : RList Param} (hvalues : params.values = bindData.values)
    (hnames : params.names = none) :
    dbBind asText (texts stmt) allow params = .ok (bindData.values.map asText, []) := by
  obtain ⟨k, hname, hk⟩ := h.kind
  rw [dbBind_unmixed hk, if_pos ⟨h0, hname⟩, hnames, hvalues]
  rfl

theorem accepts_repeatable (h0 : stmt.parameters ≠ []) (h : Repeatable asText stmt bindData)
    {r : SqliteResult σ} (hstmt : r.handle.stmt = stmt) :
    Accepts r (bindData.values.map asText) := by
  refine ⟨h.valid, ?_, ?_⟩
  · rw [nparams, hstmt]
    exact fun hnil => h0 (List.length_eq_zero_iff.mp hnil)
  · rw [nparams, hstmt, List.length_map, h.length]

/-- Where a row can be executed by both calls, there is a failure after which it is. -/
theorem not_executesOnce (h0 : stmt.parameters ≠ []) (hprepare : prepare c.db = .ok stmt)
    (hsend : CanSend c) (h : Repeatable asText stmt bindData) :
    ¬ExecutesOnce asText (failing stmt.parameters.length) prepare stmt bindData c := by
  intro honce
  have htexts : texts stmt ≠ [] := by simpa [texts] using h0
  obtain ⟨c₁, hclose⟩ := closePending_ok hsend
  have hkeeps := alongside_closePending (c := c) c ⟨rfl, rfl, rfl⟩
  rw [hclose] at hkeeps
  have hrun := dbSendQuery_sent asText (failing stmt.parameters.length) h0 hclose
    (hkeeps.valid.trans hsend.1) (hkeeps.db.symm ▸ hprepare)
  have hfirst := dbBind_repeatable htexts h true rfl h.nameless
  have hsecond : dbBind asText (texts stmt) false (unname bindData) = _ :=
    dbBind_repeatable htexts h false rfl rfl
  have hcreated : Executed stmt [] (created stmt c₁).result :=
    ⟨sized_initial stmt _ _ _, rfl, List.nil_prefix⟩
  have haccepts : Accepts (created stmt c₁).result (bindData.values.map asText) :=
    accepts_repeatable h0 h rfl
  obtain ⟨r, hbind, hbegun⟩ := dbBind_begins hcreated rfl haccepts h.row h.bound
  rw [List.length_map, h.length] at hbind
  have hresult : dbBindResult (failing stmt.parameters.length) asText true bindData
      (created stmt c₁).result = .error (.stop "constraint failed") r := by
    exact (dbBindResult_ok hfirst).trans (bind_error hbind)
  have hopened := opened_sent stmt c₁
  have herror : bindList asText (failing stmt.parameters.length) c₁.results.length bindData true
      (sent stmt c₁) = .error _ _ := bind_error (onResult_error hopened hresult)
  obtain ⟨message, hrefused⟩ := honce.retry _ _ _ _ hrun herror (by
    rw [begun, opened_save hopened, if_pos rfl]
    exact hbegun)
  rw [hsecond] at hrefused
  cases hrefused

end Repeating

/-- The fallback never executes a row twice, whatever fails, unless it can bind the list a second
time: that is, if the query can be sent, has placeholders without names, and the list has no
names either and a row that can be bound. -/
theorem prepared_once_iff (asText : Param → Param) (prepare : σ → Except String (Stmt σ))
    (stmt : Stmt σ) (h0 : stmt.parameters ≠ []) (c : Connection σ)
    (hprepare : prepare c.db = .ok stmt) (bindData : RList Param) :
    (∀ env, ExecutesOnce asText env prepare stmt bindData c) ↔
      ¬(CanSend c ∧ Repeatable asText stmt bindData) := by
  constructor
  · rintro honce ⟨hsend, hrepeat⟩
    exact not_executesOnce h0 hprepare hsend hrepeat (honce _)
  · intro hnot env
    exact executesOnce h0 hprepare hnot

/-- A constraint refuses the second row, whenever it is tried. -/
def refusing : Environment where
  access := FetchedValues.directAccess
  parsers := ⟨fun _ => none, fun _ => none, fun _ => none⟩
  fails k := if k = 3 ∨ k = 7 then some "CHECK constraint failed" else none

def insertion : Stmt (List Row) where
  columns := []
  parameters := [none]
  run table bindings := { rows := [], db := table ++ [bindings], changes := 1 }

/-- `unname(data.frame(a = c(1L, 9L)))` -/
def twoRows : RList Param where
  values := [.int [1, 9]]
  names := none
  sameLength _ h := by cases h

theorem prepared_once_iff_insertion :
    (∀ env, ExecutesOnce id env (fun _ => .ok insertion) insertion twoRows (dbConnect [] 0 false)) ↔
      ¬(CanSend (dbConnect ([] : List Row) 0 false) ∧ Repeatable id insertion twoRows) :=
  prepared_once_iff id (fun _ => .ok insertion) insertion (by decide) (dbConnect [] 0 false) rfl twoRows

theorem rowsOnce_left {asText : Param → Param} {env : Environment}
    {prepare : σ → Except String (Stmt σ)} {stmt : Stmt σ} {bindData : RList Param} {c : Connection σ}
    (h : ExecutesOnce asText env prepare stmt bindData c) {executed : List (List Cell)}
    (hbegun : begun (left (dbSendPreparedQuery asText env prepare bindData c)) c.results.length =
      executed) : executed <+: allGroups (chosen asText (texts stmt) bindData) :=
  hbegun ▸ counting_left h.send

theorem begun_twoRows :
    begun (left (dbSendPreparedQuery id refusing (fun _ => .ok insertion) twoRows
      (dbConnect [] 0 false))) 0 = [[.integer 1], [.integer 9], [.integer 1], [.integer 9]] := by
  decide +kernel

theorem allGroups_twoRows :
    allGroups (chosen id (texts insertion) twoRows) = [[.integer 1], [.integer 9]] := by
  decide +kernel

/-- The first row is inserted by both calls. -/
theorem row_repeated :
    ¬∀ (env : Environment) (stmt : Stmt (List Row)) (bindData : RList Param),
      stmt.parameters ≠ [] →
      ExecutesOnce id env (fun _ => .ok stmt) stmt bindData (dbConnect [] 0 false) := by
  intro h
  have hrows := rowsOnce_left (h refusing insertion twoRows (by decide)) begun_twoRows
  rw [allGroups_twoRows] at hrows
  exact absurd hrows (by decide)

end RSQLCipher.PreparedQueries
