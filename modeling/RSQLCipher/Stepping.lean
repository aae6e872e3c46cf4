import Mathlib.Data.List.Basic
import RSQLCipher.ResultImpl

namespace RSQLCipher.Stepping

open RSQLCipher.Library RSQLCipher.Values RSQLCipher.Statement RSQLCipher.Params
open RSQLCipher.ResultImpl SqliteResult

variable {σ : Type}

def rows (h : Handle σ) : List Row :=
  match h.cursor with
  | some c => c.rest
  | none => (h.stmt.run h.db h.bindings).rows

def dbEnd (h : Handle σ) : σ :=
  match h.cursor with
  | some _ => h.db
  | none => (h.stmt.run h.db h.bindings).db

def started (h : Handle σ) : List (List Cell) :=
  match h.cursor with
  | some _ => h.begun
  | none => h.begun ++ [h.bindings]

theorem begun_prefix_started (h : Handle σ) : h.begun <+: started h := by
  unfold started
  split
  · exact List.prefix_refl _
  · exact List.prefix_append _ _

structure Stepped (h h' : Handle σ) : Prop where
  stmt : h'.stmt = h.stmt
  bindings : h'.bindings = h.bindings
  begun : h'.begun = started h

theorem sqlite3Step_fails (h : Handle σ) :
    (h.sqlite3Step true).1 = .error ∧ Stepped h (h.sqlite3Step true).2 ∧
      (h.sqlite3Step true).2.cursor = none := by
  cases hc : h.cursor with
  | none =>
    simp only [Handle.sqlite3Step, hc, if_true]
    exact ⟨trivial, ⟨rfl, rfl, by simp [started, hc]⟩, trivial⟩
  | some c =>
    simp only [Handle.sqlite3Step, hc, if_true]
    exact ⟨trivial, ⟨rfl, rfl, by simp [started, hc]⟩, trivial⟩

theorem sqlite3Step_done (h : Handle σ) (hrows : rows h = []) :
    (h.sqlite3Step false).1 = .done ∧ Stepped h (h.sqlite3Step false).2 ∧
      (h.sqlite3Step false).2.cursor = none ∧ (h.sqlite3Step false).2.db = dbEnd h := by
  cases hc : h.cursor with
  | none =>
    simp only [rows, hc] at hrows
    simp only [Handle.sqlite3Step, hc, hrows, Bool.false_eq_true, if_false]
    exact ⟨trivial, ⟨rfl, rfl, by simp [started, hc]⟩, trivial, by simp [dbEnd, hc]⟩
  | some c =>
    simp only [rows, hc] at hrows
    simp only [Handle.sqlite3Step, hc, hrows, Bool.false_eq_true, if_false]
    exact ⟨trivial, ⟨rfl, rfl, by simp [started, hc]⟩, trivial, by simp [dbEnd, hc]⟩

theorem sqlite3Step_row (h : Handle σ) (row : Row) (rest : List Row)
    (hrows : rows h = row :: rest) :
    (h.sqlite3Step false).1 = .row ∧ Stepped h (h.sqlite3Step false).2 ∧
      (∃ c, (h.sqlite3Step false).2.cursor = some c ∧ c.row = row ∧ c.rest = rest) ∧
      (h.sqlite3Step false).2.db = dbEnd h := by
  cases hc : h.cursor with
  | none =>
    simp only [rows, hc] at hrows
    simp only [Handle.sqlite3Step, hc, hrows, Bool.false_eq_true, if_false]
    exact ⟨trivial, ⟨rfl, rfl, by simp [started, hc]⟩, ⟨_, rfl, rfl, rfl⟩, by simp [dbEnd, hc]⟩
  | some c =>
    simp only [rows, hc] at hrows
    simp only [Handle.sqlite3Step, hc, hrows, Bool.false_eq_true, if_false]
    exact ⟨trivial, ⟨rfl, rfl, by simp [started, hc]⟩, ⟨_, rfl, rfl, rfl⟩, by simp [dbEnd, hc]⟩

/-- What stepping does not touch; executions that have begun stay so. -/
structure Kept (r r' : SqliteResult σ) : Prop where
  stmt : r'.handle.stmt = r.handle.stmt
  begun : r.handle.begun <+: r'.handle.begun
  width : r'.handle.bindings.length = r.handle.bindings.length
  ready : r'.ready = r.ready
  nrows : r'.nrows = r.nrows
  totalChangesStart : r'.totalChangesStart = r.totalChangesStart
  params : r'.params = r.params
  groups : r'.groups = r.groups
  types : r'.types = r.types
  withAltTypes : r'.withAltTypes = r.withAltTypes

theorem kept_refl (r : SqliteResult σ) : Kept r r :=
  ⟨rfl, List.prefix_refl _, rfl, rfl, rfl, rfl, rfl, rfl, rfl, rfl⟩

theorem kept_trans {r s t : SqliteResult σ} (h : Kept r s) (h' : Kept s t) : Kept r t where
  stmt := h'.stmt.trans h.stmt
  begun := h.begun.trans h'.begun
  width := h'.width.trans h.width
  ready := h'.ready.trans h.ready
  nrows := h'.nrows.trans h.nrows
  totalChangesStart := h'.totalChangesStart.trans h.totalChangesStart
  params := h'.params.trans h.params
  groups := h'.groups.trans h.groups
  types := h'.types.trans h.types
  withAltTypes := h'.withAltTypes.trans h.withAltTypes

/-- There is a binding for every parameter, and a vector if there are groups. -/
structure Sized (r : SqliteResult σ) : Prop where
  bindings : r.handle.bindings.length = r.nparams
  params : r.groups = 0 ∨ r.params.length = r.nparams

theorem sized_kept {r r' : SqliteResult σ} (h : Sized r) (hk : Kept r r') : Sized r' where
  bindings := by rw [hk.width, h.bindings, nparams, nparams, hk.stmt]
  params := by
    rw [hk.groups, hk.params, nparams, hk.stmt]
    exact h.params

structure NoFailure (env : Environment) (r : SqliteResult σ) : Prop where
  calls : ∀ k, env.fails k = none
  bound : ∀ g < r.groups, groupBindings r.params g ≠ none

theorem noFailure_kept {env : Environment} {r r' : SqliteResult σ} (h : NoFailure env r)
    (hk : Kept r r') : NoFailure env r' where
  calls := h.calls
  bound := by
    rw [hk.groups, hk.params]
    exact h.bound

theorem groupBindings_cons (p : Param) (params : List Param) (g : Nat) :
    groupBindings (p :: params) g = (p.cell g).toOption.bind fun c =>
      (groupBindings params g).map (c :: ·) := by
  simp only [groupBindings, List.mapM_cons]
  cases (p.cell g).toOption <;> cases List.mapM (fun p => (p.cell g).toOption) params <;> rfl

theorem length_groupBindings {params : List Param} {g : Nat} {b : List Cell}
    (h : groupBindings params g = some b) : b.length = params.length := by
  induction params generalizing b with
  | nil =>
    cases h
    rfl
  | cons p params ih =>
    rw [groupBindings_cons] at h
    cases hp : (p.cell g).toOption with
    | none => simp [hp] at h
    | some c =>
      cases hps : groupBindings params g with
      | none => simp [hp, hps] at h
      | some cs =>
        simp only [hp, hps, Option.bind_some, Option.map_some, Option.some.injEq] at h
        subst h
        simp [ih hps]

theorem bindParameterPos_eq (env : Environment) (j : Nat) (value : Param) (r : SqliteResult σ) :
    bindParameterPos env j value r =
      match env.fails r.clock, value.cell r.group with
      | some message, _ => .error (.stop message) { r with clock := r.clock + 1 }
      | none, .error e => .error e { r with clock := r.clock + 1 }
      | none, .ok c => .ok () { r with handle := r.handle.sqlite3Bind j c, clock := r.clock + 1 } := by
  cases hf : env.fails r.clock <;> cases hcell : value.cell r.group <;>
    simp [bindParameterPos, chance, hf, hcell, liftExcept]

def withBindings (r : SqliteResult σ) (bindings : List Cell) (clock : Nat) : SqliteResult σ :=
  { r with handle := { r.handle with bindings }, clock }

def CannotBind (env : Environment) (params : List Param) (g : Nat) : Prop :=
  (∃ k, env.fails k ≠ none) ∨ groupBindings params g = none

/-- From a position on, the parameters are bound to the elements of one group, or the
binding stops at the first that fails. -/
theorem bindParameters_spec (env : Environment) (params : List Param) (bound rest : List Cell)
    (r : SqliteResult σ) (hb : r.handle.bindings = bound ++ rest)
    (hlen : rest.length = params.length) :
    Ends (fun _ r' => ∃ cells k, groupBindings params r.group = some cells ∧
        r' = withBindings r (bound ++ cells) k)
      (fun _ r' => CannotBind env params r.group ∧
        ∃ bindings k, bindings.length = r.handle.bindings.length ∧ r' = withBindings r bindings k)
      (bindParameters env bound.length params r) := by
  induction params generalizing bound rest r with
  | nil =>
    obtain rfl := List.length_eq_zero_iff.mp hlen
    refine ⟨[], r.clock, rfl, ?_⟩
    rw [← hb]
    rfl
  | cons p params ih =>
    obtain ⟨c, rest, rfl⟩ := List.exists_cons_of_length_eq_add_one hlen
    have hpos := bindParameterPos_eq env (bound.length + 1) p r
    cases hf : env.fails r.clock with
    | some message =>
      rw [hf] at hpos
      rw [bindParameters, bind_error hpos]
      exact ⟨.inl ⟨_, by rw [hf]; simp⟩, r.handle.bindings, r.clock + 1, rfl, rfl⟩
    | none =>
      cases hcell : p.cell r.group with
      | error e =>
        rw [hf, hcell] at hpos
        rw [bindParameters, bind_error hpos]
        refine ⟨.inr ?_, r.handle.bindings, r.clock + 1, rfl, rfl⟩
        rw [groupBindings_cons, hcell]
        rfl
      | ok value =>
        rw [hf, hcell] at hpos
        rw [bindParameters, bind_ok hpos]
        have hnext : (r.handle.sqlite3Bind (bound.length + 1) value).bindings =
            (bound ++ [value]) ++ rest := by
          simp [Handle.sqlite3Bind, hb]
        have hrest := ih (bound ++ [value]) rest
          { r with handle := r.handle.sqlite3Bind (bound.length + 1) value, clock := r.clock + 1 }
          hnext (by simpa using hlen)
        rw [List.length_append, List.length_singleton] at hrest
        refine ends_mono hrest ?_ ?_
        · rintro - r' ⟨cells, k, hcells, rfl⟩
          refine ⟨value :: cells, k, ?_, ?_⟩
          · rw [groupBindings_cons, hcell]
            change groupBindings params r.group = some cells at hcells
            rw [hcells]
            rfl
          · simp [withBindings, Handle.sqlite3Bind]
        · rintro - r' ⟨hcause, bindings, k, hwidth, rfl⟩
          refine ⟨?_, bindings, k, ?_, rfl⟩
          · obtain hcause | hcause := hcause
            · exact .inl hcause
            · right
              change groupBindings params r.group = none at hcause
              rw [groupBindings_cons, hcell, hcause]
              rfl
          · rw [hwidth, hnext, hb]
            simp

theorem bindRow_last (env : Environment) (r : SqliteResult σ) (h : r.groups ≤ r.group) :
    bindRow env r = .ok false r := by
  simp [bindRow, h]

theorem bindRow_more (env : Environment) (r : SqliteResult σ) (h : r.group < r.groups) :
    bindRow env r = (do bindParameters env 0 r.params; return true : ResultM σ Bool)
      { r with handle := r.handle.sqlite3Reset.sqlite3ClearBindings } := by
  simp [bindRow, Nat.not_le.mpr h]

theorem bindRow_spec (env : Environment) (r : SqliteResult σ) (hs : Sized r)
    (h : r.group < r.groups) :
    Ends (fun more r' => more = true ∧ ∃ b k, groupBindings r.params r.group = some b ∧
        r' = withBindings { r with handle := r.handle.sqlite3Reset } b k)
      (fun _ r' => CannotBind env r.params r.group ∧ ∃ bindings k,
        bindings.length = r.handle.bindings.length ∧
          r' = withBindings { r with handle := r.handle.sqlite3Reset } bindings k)
      (bindRow env r) := by
  have hparams : r.params.length = r.handle.stmt.parameters.length :=
    hs.params.resolve_left (by omega)
  rw [bindRow_more env r h]
  have hbind := bindParameters_spec env r.params [] _
    { r with handle := r.handle.sqlite3Reset.sqlite3ClearBindings } rfl
    (by simp [Handle.sqlite3Reset, hparams])
  refine ends_bind (ends_mono hbind (fun _ _ h => h) ?_) ?_
  · rintro - r' ⟨hcause, bindings, k, hwidth, rfl⟩
    refine ⟨hcause, bindings, k, ?_, rfl⟩
    rw [hwidth, hs.bindings, nparams]
    simp [Handle.sqlite3ClearBindings, Handle.sqlite3Reset]
  · rintro - r' ⟨b, k, hb, rfl⟩
    exact ⟨rfl, b, k, hb, rfl⟩

structure NextGroup (r r' : SqliteResult σ) : Prop where
  kept : Kept r r'
  running : r'.complete = r.complete
  group : r'.group = r.group + 1
  more : r'.group < r'.groups
  cursor : r'.handle.cursor = none
  db : r'.handle.db = r.handle.db
  begun : r'.handle.begun = r.handle.begun
  bound : groupBindings r.params (r.group + 1) = some r'.handle.bindings

structure LastGroup (r r' : SqliteResult σ) : Prop where
  kept : Kept r r'
  complete : r'.complete = true
  last : r.groups ≤ r.group + 1
  handle : r'.handle = r.handle

structure Unbound (env : Environment) (r r' : SqliteResult σ) : Prop where
  kept : Kept r r'
  running : r'.complete = r.complete
  cause : CannotBind env r.params (r.group + 1)
  more : r.group + 1 < r.groups
  cursor : r'.handle.cursor = none
  begun : r'.handle.begun = r.handle.begun

theorem stepDone_spec (env : Environment) (r : SqliteResult σ) (hs : Sized r) :
    Ends (fun more r' => if more then NextGroup r r' else LastGroup r r')
      (fun _ r' => Unbound env r r') (stepDone env r) := by
  have hrun : stepDone env r = (do
      let more ← bindRow env
      if !more then modify fun r => { r with complete := true }
      return more : ResultM σ Bool) { r with group := r.group + 1 } := by
    simp only [stepDone, bind_apply, modify_apply]
  rw [hrun]
  by_cases hmore : r.group + 1 < r.groups
  · have hwidth : r.handle.bindings.length = r.params.length := by
      rw [hs.bindings, hs.params.resolve_left (by omega)]
    have hbind := bindRow_spec env { r with group := r.group + 1 } ⟨hs.bindings, hs.params⟩ hmore
    refine ends_bind (ends_mono hbind (fun _ _ h => h) ?_) ?_
    · rintro - r' ⟨hcause, bindings, k, hlen, rfl⟩
      exact ⟨⟨rfl, List.prefix_refl _, hlen, rfl, rfl, rfl, rfl, rfl, rfl, rfl⟩, rfl, hcause, hmore,
        rfl, rfl⟩
    · rintro - r' ⟨rfl, b, k, hb, rfl⟩
      have hlen := length_groupBindings hb
      exact ⟨⟨rfl, List.prefix_refl _, by rw [hwidth]; exact hlen, rfl, rfl, rfl, rfl, rfl, rfl, rfl⟩,
        rfl, rfl, hmore, rfl, rfl, rfl, hb⟩
  · have hlast := bindRow_last env { r with group := r.group + 1 } (not_lt.mp hmore)
    rw [bind_ok hlast]
    exact ⟨⟨rfl, List.prefix_refl _, rfl, rfl, rfl, rfl, rfl, rfl, rfl, rfl⟩, rfl,
      not_lt.mp hmore, rfl⟩

/-- What a step of the statement comes to: a row, the next group, or the end. -/
inductive Came (r r' : SqliteResult σ) : Bool → Prop
  | row (c : Cursor σ) (running : r'.complete = false) (cursor : r'.handle.cursor = some c)
      (rows : rows r.handle = c.row :: c.rest) (later : r'.laterGroups = r.laterGroups) :
      Came r r' false
  | next (running : r'.complete = false) (cursor : r'.handle.cursor = none)
      (group : r'.group = r.group + 1) (more : r'.group < r'.groups) (rows : rows r.handle = [])
      (later : r.laterGroups = r'.handle.bindings :: r'.laterGroups) : Came r r' true
  | done (complete : r'.complete = true) (cursor : r'.handle.cursor = none)
      (rows : rows r.handle = []) (later : r.laterGroups = []) : Came r r' false

structure StepRun (r r' : SqliteResult σ) (more : Bool) : Prop where
  kept : Kept r r'
  db : r'.handle.db = dbEnd r.handle
  begun : r'.handle.begun = started r.handle
  came : Came r r' more

structure Raised (env : Environment) (r r' : SqliteResult σ) : Prop where
  kept : Kept r r'
  running : r'.complete = false
  cursor : r'.handle.cursor = none
  begun : r'.handle.begun = started r.handle
  cause : ¬NoFailure env r

theorem laterGroups_next {r r' : SqliteResult σ} (h : NextGroup r r') :
    r.laterGroups = r'.handle.bindings :: r'.laterGroups := by
  have hmore := h.more
  rw [h.group, h.kept.groups] at hmore
  have hcount : r.groups - (r.group + 1) = r.groups - (r.group + 1 + 1) + 1 := by omega
  simp only [laterGroups, h.kept.params, h.kept.groups, h.group]
  rw [hcount, boundGroups, h.bound]

theorem laterGroups_last {r r' : SqliteResult σ} (h : LastGroup r r') : r.laterGroups = [] := by
  rw [laterGroups, Nat.sub_eq_zero_of_le h.last]
  rfl

theorem not_noFailure {env : Environment} {r : SqliteResult σ} {g : Nat}
    (hcause : CannotBind env r.params g) (hg : g < r.groups) : ¬NoFailure env r := by
  intro h
  obtain ⟨k, hk⟩ | hnone := hcause
  · exact hk (h.calls k)
  · exact h.bound g hg hnone

def afterStep (r : SqliteResult σ) (fails : Bool) : SqliteResult σ :=
  { r with handle := (r.handle.sqlite3Step fails).2, clock := r.clock + 1 }

theorem kept_afterStep (r : SqliteResult σ) (fails : Bool)
    (h : Stepped r.handle (r.handle.sqlite3Step fails).2) : Kept r (afterStep r fails) :=
  ⟨h.stmt, h.begun ▸ begun_prefix_started r.handle, congrArg List.length h.bindings,
    rfl, rfl, rfl, rfl, rfl, rfl, rfl⟩

theorem stepRun_eq (env : Environment) (r : SqliteResult σ) :
    stepRun env r =
      match (r.handle.sqlite3Step (env.fails r.clock).isSome).1 with
      | .done => stepDone env (afterStep r (env.fails r.clock).isSome)
      | .row => .ok false (afterStep r (env.fails r.clock).isSome)
      | .error => .error (.stop ((env.fails r.clock).getD ""))
          (afterStep r (env.fails r.clock).isSome) := by
  simp only [stepRun, chance, bind_apply, get_apply, set_apply, afterStep]
  cases (r.handle.sqlite3Step (env.fails r.clock).isSome).1 <;> rfl

/-- One step of the statement, with what `step_done` does at the end of a group. -/
theorem stepRun_spec (env : Environment) (r : SqliteResult σ) (hs : Sized r)
    (hrun : r.complete = false) :
    Ends (fun more r' => StepRun r r' more) (fun _ r' => Raised env r r') (stepRun env r) := by
  rw [stepRun_eq]
  cases hf : env.fails r.clock with
  | some message =>
    obtain ⟨hrc, hstep, hcursor⟩ := sqlite3Step_fails r.handle
    simp only [Option.isSome_some, hrc]
    refine ⟨kept_afterStep r true hstep, hrun, hcursor, hstep.begun, fun h => ?_⟩
    simp [h.calls] at hf
  | none =>
    cases hrows : rows r.handle with
    | cons row rest =>
      obtain ⟨hrc, hstep, ⟨c, hcursor, rfl, rfl⟩, hdb⟩ := sqlite3Step_row r.handle row rest hrows
      simp only [Option.isSome_none, hrc]
      exact ⟨kept_afterStep r false hstep, hdb, hstep.begun, .row c hrun hcursor hrows rfl⟩
    | nil =>
      obtain ⟨hrc, hstep, hcursor, hdb⟩ := sqlite3Step_done r.handle hrows
      simp only [Option.isSome_none, hrc]
      have hkept := kept_afterStep r false hstep
      have hlater : (afterStep r false).laterGroups = r.laterGroups := rfl
      refine ends_mono (stepDone_spec env _ (sized_kept hs hkept)) ?_ ?_
      · rintro more r' hr'
        cases more with
        | false =>
          have hlast := laterGroups_last hr'
          rw [hlater] at hlast
          have hhandle := hr'.handle
          refine ⟨kept_trans hkept hr'.kept, ?_, ?_, .done hr'.complete ?_ hrows hlast⟩
          · rw [hhandle]
            exact hdb
          · rw [hhandle]
            exact hstep.begun
          · rw [hhandle]
            exact hcursor
        | true =>
          have hnext := laterGroups_next hr'
          rw [hlater] at hnext
          exact ⟨kept_trans hkept hr'.kept, hr'.db.trans hdb, hr'.begun.trans hstep.begun,
            .next (hr'.running.trans hrun) hr'.cursor hr'.group hr'.more hrows hnext⟩
      · rintro - r' hr'
        exact ⟨kept_trans hkept hr'.kept, hr'.running.trans hrun, hr'.cursor,
          hr'.begun.trans hstep.begun, not_noFailure (g := r.group + 1) hr'.cause hr'.more⟩

end RSQLCipher.Stepping
