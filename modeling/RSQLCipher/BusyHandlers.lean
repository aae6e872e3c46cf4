import RSQLCipher.Connections
import Mathlib.Data.List.Nodup

namespace RSQLCipher.BusyHandlers

open RSQLCipher.Library RSQLCipher.Values RSQLCipher.Statement RSQLCipher.Params
open RSQLCipher.ResultImpl RSQLCipher.Placeholders RSQLCipher.Connections

variable {σ : Type}

def anyOpen (c : Connection σ) : Prop := ∃ i o, c.opened i = some o

/-- The database is open: the connection is, or one of its results. -/
def canRun (c : Connection σ) : Prop := c.valid = true ∨ anyOpen c

def LiveHandler (c : Connection σ) : Prop :=
  canRun c → ∀ data, c.slot = .callback data →
    ∃ s, data = some s ∧ s.kind = .function ∧ s ∈ c.preserved

/-- After a call, what SQLite calls is a live function, and after a call that returns and
whose handler is `NULL`, it calls nothing of R. -/
def HandlerSafe (asText : Param → Param) (c : Connection σ) (call : Call σ) : Prop :=
  LiveHandler (next asText c call) ∧
    (call = .setBusyHandler .null → c.valid = true →
      ∀ data, (next asText c call).slot ≠ .callback data)

/-- `NULL` is set on a closed connection only, and a connection with a callback is closed
when no result is open. -/
def KeepsHandler (c : Connection σ) : Call σ → Prop
  | .setBusyHandler .null => c.valid = false
  | .disconnect => ¬(c.valid = true ∧ anyOpen c ∧ ∃ data, c.slot = .callback data)
  | _ => True

structure Held (c : Connection σ) : Prop where
  live : c.valid = true → (c.busyCallback = none ∧ c.slot = .none) ∨
    ∃ s, c.busyCallback = some s ∧ s ∈ c.preserved ∧ c.slot = busySlot (some s)
  closed : c.valid = false → c.busyCallback = none ∧
    (anyOpen c → ∀ data, c.slot ≠ .callback data)
  nodup : c.preserved.Nodup
  fresh : ∀ s ∈ c.preserved, s.id < c.nextId

/-- What the calls on results leave alone; only a connection that is open gets new ones. -/
structure SameHandler (c c' : Connection σ) : Prop where
  valid : c'.valid = c.valid
  slot : c'.slot = c.slot
  busyCallback : c'.busyCallback = c.busyCallback
  preserved : c'.preserved = c.preserved
  nextId : c'.nextId = c.nextId
  results : anyOpen c' → canRun c

section Calls

variable {c c' c'' : Connection σ} {α : Type}

theorem sameHandler_refl (c : Connection σ) : SameHandler c c :=
  ⟨rfl, rfl, rfl, rfl, rfl, .inr⟩

theorem SameHandler.trans (h : SameHandler c c') (h' : SameHandler c' c'') : SameHandler c c'' where
  valid := h'.valid.trans h.valid
  slot := h'.slot.trans h.slot
  busyCallback := h'.busyCallback.trans h.busyCallback
  preserved := h'.preserved.trans h.preserved
  nextId := h'.nextId.trans h.nextId
  results := by
    intro hopen
    obtain hvalid | hopen := h'.results hopen
    · exact .inl (h.valid ▸ hvalid)
    · exact h.results hopen

/-- A computation that changes nothing of the handler. -/
def Neutral (x : ConnectionM σ α) : Prop := ∀ c, Keeps (SameHandler c) x

theorem neutral_of {x : ConnectionM σ α} (h : ∀ c, SameHandler c (left (x c))) : Neutral x := by
  intro c c' hc'
  have hx := hc'.trans (h c')
  cases hrun : x c' with
  | ok a c'' | error e c'' =>
    rw [hrun] at hx
    exact hx

theorem Neutral.left {x : ConnectionM σ α} (h : Neutral x) (c : Connection σ) :
    SameHandler c (left (x c)) := by
  have hx := h c c (sameHandler_refl c)
  cases hrun : x c with
  | ok a c'' | error e c'' =>
    rw [hrun] at hx
    exact hx

theorem sameHandler_save (c : Connection σ) (i : Nat) {o o' : OpenResult σ}
    (ho : c.opened i = some o) : SameHandler c (c.save i o') :=
  ⟨rfl, rfl, rfl, rfl, rfl, fun _ => .inr ⟨i, o, ho⟩⟩

theorem neutral_onResult (i : Nat) (x : ResultM σ α)
    (counted : OpenResult σ → SqliteResult σ → SqliteResult σ → Nat) :
    Neutral (onResult i x counted) := by
  apply neutral_of
  intro c
  rw [onResult]
  cases ho : c.opened i with
  | none => exact sameHandler_refl c
  | some o =>
    simp only
    cases x (c.attach o.result) with
    | ok a r | error e r => exact sameHandler_save c i ho

theorem neutral_resultRelease (i : Nat) : Neutral (resultRelease i : ConnectionM σ Unit) := by
  apply neutral_of
  intro c
  rw [resultRelease, modify_apply, left]
  cases ho : c.opened i with
  | none => exact sameHandler_refl c
  | some o => exact ⟨rfl, rfl, rfl, rfl, rfl, fun _ => .inr ⟨i, o, ho⟩⟩

theorem neutral_ref (ref : Option Nat) :
    Neutral (modify fun c => { c with ref := ref } : ConnectionM σ Unit) := by
  apply neutral_of
  intro c
  exact ⟨rfl, rfl, rfl, rfl, rfl, .inr⟩

theorem neutral_dbClearResult (i : Nat) : Neutral (dbClearResult i : ConnectionM σ Unit) := by
  intro c
  refine keeps_bind keeps_get fun c' => keeps_ite ?_ (keeps_pure _)
  exact keeps_bind (neutral_resultRelease i c) fun _ => neutral_ref none c

theorem neutral_resultCreate (env : Environment) (prepare : σ → Except String (Stmt σ)) :
    Neutral (resultCreate env prepare) := by
  apply neutral_of
  intro c
  rw [resultCreate]
  cases hvalid : c.valid with
  | false => exact sameHandler_refl c
  | true =>
    have hcan : canRun c := .inl hvalid
    simp only [if_true]
    cases prepare c.db with
    | error message => exact sameHandler_refl c
    | ok stmt =>
      simp only
      cases SqliteResult.create env (SqliteResult.initial stmt c.db c.totalChanges c.withAltTypes) with
      | ok u r => exact ⟨hvalid.symm, rfl, rfl, rfl, rfl, fun _ => hcan⟩
      | error e r => exact ⟨rfl, rfl, rfl, rfl, rfl, fun _ => hcan⟩

theorem neutral_closePending : Neutral (closePending : ConnectionM σ Unit) := by
  intro c
  refine keeps_bind keeps_get fun c' => ?_
  cases c'.ref with
  | none => exact keeps_pure _
  | some pending =>
    refine keeps_bind (neutral_dbClearResult pending c) fun _ => ?_
    exact keeps_bind keeps_get fun c'' => keeps_ite (keeps_throw _) (keeps_pure _)

theorem neutral_bindResult (asText : Param → Param) (env : Environment) (i : Nat)
    (params : RList Param) : Neutral (bindResult asText env i params : ConnectionM σ Unit) := by
  intro c
  exact keeps_bind (neutral_onResult i _ _ c) fun _ => keeps_pure _

theorem neutral_dbSendQuery (asText : Param → Param) (env : Environment)
    (prepare : σ → Except String (Stmt σ)) (params : Option (RList Param)) :
    Neutral (dbSendQuery asText env prepare params) := by
  intro c
  apply keeps_function
  refine keeps_bind (keeps_lift (neutral_closePending c)) fun _ => ?_
  refine keeps_bind (keeps_lift (neutral_resultCreate env prepare c)) fun rs => ?_
  have hexit : ∀ y, some (dbClearResult rs : ConnectionM σ Unit) = some y →
      Keeps (SameHandler c) y := by
    intro y hy
    cases hy
    exact neutral_dbClearResult rs c
  have hlast : Keeps (Guarded (SameHandler c)) (do
      onExit none
      modify fun f : Frame Fault (Connection σ) =>
        { f with state := { f.state with ref := some rs } }
      return rs) := by
    refine keeps_bind (keeps_onExit fun _ hno => by cases hno) fun _ => ?_
    refine keeps_bind (keeps_modify fun f hf => ?_) fun _ => keeps_pure _
    exact ⟨hf.1.trans ⟨rfl, rfl, rfl, rfl, rfl, .inr⟩, hf.2⟩
  refine keeps_bind (keeps_onExit hexit) fun _ => ?_
  cases params with
  | none => exact hlast
  | some params =>
    exact keeps_bind (keeps_lift (neutral_bindResult asText env rs params c)) fun _ => hlast

end Calls

section Handlers

variable {asText : Param → Param} {c c' : Connection σ}

theorem Held.same (h : Held c) (hsame : SameHandler c c') : Held c' where
  live := by
    rw [hsame.valid, hsame.busyCallback, hsame.preserved, hsame.slot]
    exact h.live
  closed := by
    rw [hsame.valid, hsame.busyCallback, hsame.slot]
    intro hvalid
    refine ⟨(h.closed hvalid).1, fun hopen => (h.closed hvalid).2 ?_⟩
    obtain hcan | hcan := hsame.results hopen
    · rw [hvalid] at hcan
      cases hcan
    · exact hcan
  nodup := by
    rw [hsame.preserved]
    exact h.nodup
  fresh := by
    rw [hsame.preserved, hsame.nextId]
    exact h.fresh

theorem busySlot_callback {s : Option Callback} {data : Option Callback}
    (h : busySlot s = .callback data) : data = s ∧ ∀ t, s = some t → t.kind = .function := by
  cases s with
  | none =>
    cases h
    exact ⟨rfl, fun t ht => by cases ht⟩
  | some s =>
    obtain ⟨id, kind⟩ := s
    cases kind with
    | function =>
      cases h
      exact ⟨rfl, fun t ht => by cases ht; rfl⟩
    | integer ms =>
      simp only [busySlot, sqlite3BusyTimeout] at h
      split at h
      · cases h
      · cases h

theorem Held.liveHandler (h : Held c) : LiveHandler c := by
  intro hcan data hdata
  cases hvalid : c.valid with
  | true =>
    obtain ⟨-, hslot⟩ | ⟨s, -, hmem, hslot⟩ := h.live hvalid
    · rw [hslot] at hdata
      cases hdata
    · rw [hslot] at hdata
      obtain ⟨rfl, hfunction⟩ := busySlot_callback hdata
      exact ⟨s, rfl, hfunction s rfl, hmem⟩
  | false =>
    obtain hcan | hopen := hcan
    · rw [hvalid] at hcan
      cases hcan
    · exact absurd hdata ((h.closed hvalid).2 hopen data)

theorem held_dbConnect (db : σ) (totalChanges : Nat) (withAltTypes : Bool) :
    Held (dbConnect db totalChanges withAltTypes) where
  live _ := .inl ⟨rfl, rfl⟩
  closed := by
    intro hvalid
    cases hvalid
  nodup := List.nodup_nil
  fresh := List.forall_mem_nil _

/-- The object that was preserved is not any longer, since it was preserved once. -/
theorem held_released (h : Held c) :
    (released c).preserved.Nodup ∧ (∀ s ∈ (released c).preserved, s.id < c.nextId) ∧
      ∀ s, c.busyCallback = some s → s ∉ (released c).preserved := by
  rw [released]
  cases c.busyCallback with
  | none => exact ⟨h.nodup, h.fresh, fun s hno => by cases hno⟩
  | some s =>
    refine ⟨h.nodup.erase s, fun t ht => h.fresh t (List.mem_of_mem_erase ht), ?_⟩
    intro t ht
    cases ht
    exact h.nodup.not_mem_erase

theorem released_busyCallback (c : Connection σ) : (released c).busyCallback = none := by
  rw [released]
  cases hs : c.busyCallback with
  | none => exact hs
  | some s => rfl

theorem released_rest (c : Connection σ) :
    (released c).valid = c.valid ∧ (released c).slot = c.slot ∧
      (released c).nextId = c.nextId ∧ (released c).results = c.results := by
  rw [released]
  split <;> exact ⟨rfl, rfl, rfl, rfl⟩

theorem setBusyHandler_invalid (h : c.valid = false) (callback : Option CallbackKind) :
    left (setBusyHandler callback c) = c := by
  simp [setBusyHandler, h, left]

/-- The connection in which a handler has been set. -/
def handled (c : Connection σ) : Option CallbackKind → Connection σ
  | none => { released c with slot := .callback none }
  | some kind =>
    { preserving kind (released c) with
      slot := busySlot (some { id := c.nextId, kind := kind }) }

theorem setBusyHandler_valid (h : c.valid = true) (callback : Option CallbackKind) :
    left (setBusyHandler callback c) = handled c callback := by
  have hnext : (released c).nextId = c.nextId := (released_rest c).2.2.1
  have hnone : (released c).busyCallback = none := released_busyCallback c
  cases callback with
  | none => simp [setBusyHandler, h, left, handled, releaseCallbackData, hnone, busySlot]
  | some kind =>
    simp [setBusyHandler, h, left, handled, releaseCallbackData, preserving, hnext]

theorem anyOpen_congr (h : c'.results = c.results) : anyOpen c' ↔ anyOpen c := by
  simp only [anyOpen, Connection.opened, h]

theorem held_handled_some (h : Held c) (hvalid : c.valid = true) (kind : CallbackKind) :
    Held (handled c (some kind)) := by
  obtain ⟨hnodup, hfresh, -⟩ := held_released h
  obtain ⟨hvalid', -, hnext, -⟩ := released_rest c
  have hlive : (handled c (some kind)).valid = true := hvalid'.trans hvalid
  constructor
  case live =>
    intro _
    refine .inr ⟨{ id := c.nextId, kind := kind }, ?_, ?_, rfl⟩
    · rw [← hnext]
      rfl
    · rw [← hnext]
      exact List.mem_cons_self
  case closed =>
    intro hclosed
    rw [hlive] at hclosed
    cases hclosed
  case nodup =>
    refine List.nodup_cons.mpr ⟨fun hmem => ?_, hnodup⟩
    have hlt := hfresh _ hmem
    simp only [hnext, lt_irrefl] at hlt
  case fresh =>
    intro s hs
    show s.id < (released c).nextId + 1
    rw [hnext]
    obtain rfl | hs := List.mem_cons.mp hs
    · exact Nat.lt_succ_of_le hnext.le
    · exact Nat.lt_succ_of_lt (hfresh s hs)

theorem dbDisconnect_invalid (h : c.valid = false) : left (dbDisconnect c) = c := by
  simp [dbDisconnect, h, left]

theorem dbDisconnect_valid (h : c.valid = true) :
    left (dbDisconnect c) = { released c with valid := false } := by
  have hreleased : released { c with valid := false } = { released c with valid := false } := by
    obtain ⟨_, _, _, _, _, callback, _, _, _, _⟩ := c
    cases callback with
    | none | some s => rfl
  simp [dbDisconnect, h, left, releaseCallbackData, hreleased]

theorem held_disconnected (h : Held c)
    (hslot : anyOpen c → ∀ data, c.slot ≠ .callback data) :
    Held { released c with valid := false } := by
  obtain ⟨hnodup, hfresh, -⟩ := held_released h
  obtain ⟨-, hslot', hnext, hresults⟩ := released_rest c
  constructor
  case live =>
    intro hvalid
    cases hvalid
  case closed =>
    intro _
    refine ⟨released_busyCallback c, fun hopen => ?_⟩
    rw [hslot']
    exact hslot ((anyOpen_congr hresults).mp hopen)
  case nodup => exact hnodup
  case fresh =>
    rw [hnext]
    exact hfresh

/-- A callback of a connection that is closed under a result is released and still called. -/
theorem not_liveHandler_disconnected (h : Held c) (hvalid : c.valid = true) (hopen : anyOpen c)
    {data : Option Callback} (hdata : c.slot = .callback data) :
    ¬LiveHandler { released c with valid := false } := by
  intro hlive
  obtain ⟨-, -, hgone⟩ := held_released h
  obtain ⟨-, hslot, -, hresults⟩ := released_rest c
  have hopen' : anyOpen { released c with valid := false } := (anyOpen_congr hresults).mpr hopen
  obtain ⟨s, rfl, -, hmem⟩ := hlive (.inr hopen') data (hslot.trans hdata)
  obtain ⟨-, hnone⟩ | ⟨t, ht, -, hslot'⟩ := h.live hvalid
  · rw [hnone] at hdata
    cases hdata
  · obtain ⟨hst, -⟩ := busySlot_callback (hslot'.symm.trans hdata)
    exact hgone s (ht.trans hst.symm) hmem

/-- What a call does that the condition does not restrict. -/
theorem held_next_free (h : Held c) {call : Call σ} (hnull : call ≠ .setBusyHandler .null)
    (hdisconnect : call ≠ .disconnect) : Held (next asText c call) := by
  cases call with
  | sendQuery env prepare params =>
    exact h.same ((neutral_dbSendQuery asText env prepare params).left c)
  | bind env i params => exact h.same ((neutral_bindResult asText env i params).left c)
  | fetch env i n => exact h.same ((neutral_onResult i _ _).left c)
  | clearResult i => exact h.same ((neutral_dbClearResult i).left c)
  | disconnect => exact absurd rfl hdisconnect
  | setBusyHandler handler =>
    have hset : ∀ kind, Held (left (setBusyHandler (some kind) c)) := by
      intro kind
      cases hvalid : c.valid with
      | true =>
        rw [setBusyHandler_valid hvalid]
        exact held_handled_some h hvalid kind
      | false =>
        rw [setBusyHandler_invalid hvalid]
        exact h
    cases handler with
    | null => exact absurd rfl hnull
    | numeric ms => exact hset (.integer ms)
    | function => exact hset .function
    | other => exact h

theorem held_next (h : Held c) {call : Call σ} (hkeeps : KeepsHandler c call) :
    Held (next asText c call) := by
  by_cases hnull : call = .setBusyHandler .null
  · subst hnull
    rw [show next asText c (.setBusyHandler .null) = left (setBusyHandler none c) from rfl,
      setBusyHandler_invalid hkeeps]
    exact h
  by_cases hdisconnect : call = .disconnect
  · subst hdisconnect
    show Held (left (dbDisconnect c))
    cases hvalid : c.valid with
    | true =>
      rw [dbDisconnect_valid hvalid]
      exact held_disconnected h fun hopen data hdata => hkeeps ⟨hvalid, hopen, data, hdata⟩
    | false =>
      rw [dbDisconnect_invalid hvalid]
      exact h
  exact held_next_free h hnull hdisconnect

theorem handlerSafe_iff (h : Held c) (call : Call σ) :
    HandlerSafe asText c call ↔ KeepsHandler c call := by
  constructor
  · rintro ⟨hlive, hfree⟩
    cases call with
    | disconnect =>
      rintro ⟨hvalid, hopen, data, hdata⟩
      have hnext : next asText c .disconnect = { released c with valid := false } :=
        dbDisconnect_valid hvalid
      rw [hnext] at hlive
      exact not_liveHandler_disconnected h hvalid hopen hdata hlive
    | setBusyHandler handler =>
      cases handler with
      | null =>
        cases hvalid : c.valid with
        | false => exact hvalid
        | true =>
          have hnext : next asText c (.setBusyHandler .null) = handled c none :=
            setBusyHandler_valid hvalid none
          exact absurd (congrArg Connection.slot hnext) (hfree rfl hvalid none)
      | numeric ms | function | other => trivial
    | sendQuery env prepare params | bind env i params | fetch env i n | clearResult i => trivial
  · intro hkeeps
    refine ⟨(held_next h hkeeps).liveHandler, ?_⟩
    rintro rfl hvalid
    rw [show c.valid = false from hkeeps] at hvalid
    cases hvalid

end Handlers

/-- The runs after which what SQLite calls is live are those that never set `NULL` on an
open connection and never close one that has a callback under an open result. -/
theorem run_handlerSafe_iff (asText : Param → Param) (db : σ) (totalChanges : Nat)
    (withAltTypes : Bool) (calls : List (Call σ)) :
    Along (next asText) (HandlerSafe asText) (dbConnect db totalChanges withAltTypes) calls ↔
      Along (next asText) KeepsHandler (dbConnect db totalChanges withAltTypes) calls :=
  along_iff Held (fun _ _ h hkeeps => held_next h hkeeps)
    (fun _ call h => handlerSafe_iff h call) (held_dbConnect db totalChanges withAltTypes) calls

theorem null_calls_null :
    ¬∀ calls : List (Call Unit),
      Along (next id) (HandlerSafe id) (dbConnect () 0 false) calls := by
  intro h
  obtain ⟨⟨-, hfree⟩, -⟩ := h [.setBusyHandler .null]
  exact hfree rfl rfl none rfl

end RSQLCipher.BusyHandlers
