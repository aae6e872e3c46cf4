import RSQLCipher.Library.Outcome

namespace RSQLCipher.Library

variable {ε σ α β : Type}

/-- The environment of a running function: the state around it, and what it does when it
is left. -/
structure Frame (ε σ : Type) where
  state : σ
  exit : Option (EStateM ε σ Unit)

def lift (x : EStateM ε σ α) : EStateM ε (Frame ε σ) α := fun f =>
  match x f.state with
  | .ok a s => .ok a { f with state := s }
  | .error e s => .error e { f with state := s }

instance : MonadLift (EStateM ε σ) (EStateM ε (Frame ε σ)) := ⟨lift⟩

def onExit (exit : Option (EStateM ε σ Unit)) : EStateM ε (Frame ε σ) Unit :=
  modify fun f => { f with exit := exit }

def Frame.leave (f : Frame ε σ) : EStateM.Result ε σ Unit :=
  match f.exit with
  | none => .ok () f.state
  | some exit => exit f.state

/-- A function, whose last exit handler runs however the body ends. -/
def function (body : EStateM ε (Frame ε σ) α) : EStateM ε σ α := fun s =>
  match body { state := s, exit := none } with
  | .ok a f =>
    match f.leave with
    | .ok _ s => .ok a s
    | .error e s => .error e s
  | .error e f =>
    match f.leave with
    | .ok _ s => .error e s
    | .error e s => .error e s

theorem lift_apply (x : EStateM ε σ α) (f : Frame ε σ) :
    (liftM x : EStateM ε (Frame ε σ) α) f =
      match x f.state with
      | .ok a s => .ok a { f with state := s }
      | .error e s => .error e { f with state := s } := rfl

@[simp] theorem onExit_apply (exit : Option (EStateM ε σ Unit)) (f : Frame ε σ) :
    onExit exit f = .ok () { f with exit := exit } := rfl

/-- The rule for functions: after the handler, what was to hold at the end holds. -/
theorem ends_function {body : EStateM ε (Frame ε σ) α} {s : σ} {post : α → σ → Prop}
    {raised : ε → σ → Prop}
    (h : Ends (fun a f => Ends (fun _ s' => post a s') raised f.leave)
      (fun e f => Ends (fun _ s' => raised e s') raised f.leave)
      (body { state := s, exit := none })) :
    Ends post raised (function body s) := by
  unfold function
  cases hbody : body { state := s, exit := none } with
  | ok a f | error e f =>
    rw [hbody] at h
    simp only [ends_ok, ends_error] at h ⊢
    cases hleave : f.leave with
    | ok u s' | error e' s' =>
      rw [hleave] at h
      exact h

theorem ends_lift {x : EStateM ε σ α} {f : Frame ε σ} {post : α → Frame ε σ → Prop}
    {raised : ε → Frame ε σ → Prop}
    (h : Ends (fun a s => post a { f with state := s }) (fun e s => raised e { f with state := s })
      (x f.state)) : Ends post raised ((liftM x : EStateM ε (Frame ε σ) α) f) := by
  rw [lift_apply]
  cases hx : x f.state with
  | ok a s | error e s =>
    rw [hx] at h
    exact h

/-- However a computation ends, an invariant of the state is kept. -/
def Keeps (inv : σ → Prop) (x : EStateM ε σ α) : Prop :=
  ∀ s, inv s → Ends (fun _ s' => inv s') (fun _ s' => inv s') (x s)

section Keeps

variable {inv : σ → Prop} {x : EStateM ε σ α}

theorem keeps_pure (a : α) : Keeps inv (pure a : EStateM ε σ α) := fun _ h => h

theorem keeps_throw (e : ε) : Keeps inv (throw e : EStateM ε σ α) := fun _ h => h

theorem keeps_get : Keeps inv (get : EStateM ε σ σ) := fun _ h => h

theorem keeps_modify {f : σ → σ} (hf : ∀ s, inv s → inv (f s)) :
    Keeps inv (modify f : EStateM ε σ PUnit) := hf

theorem keeps_bind {f : α → EStateM ε σ β} (hx : Keeps inv x) (hf : ∀ a, Keeps inv (f a)) :
    Keeps inv (x >>= f) := fun s h => ends_bind (hx s h) fun a s' h' => hf a s' h'

theorem keeps_ite {p : Prop} [Decidable p] {y : EStateM ε σ α} (hx : Keeps inv x)
    (hy : Keeps inv y) : Keeps inv (if p then x else y) := by
  by_cases hp : p
  · rw [if_pos hp]
    exact hx
  · rw [if_neg hp]
    exact hy

theorem keeps_check {p : Prop} [Decidable p] {e : ε} (hx : Keeps inv x) :
    Keeps inv (if p then (throw e : EStateM ε σ β) >>= fun _ => x else x) :=
  keeps_ite (keeps_bind (keeps_throw e) fun _ => hx) hx

theorem keeps_when {p : Prop} [Decidable p] {x : EStateM ε σ PUnit} {f : PUnit → EStateM ε σ α}
    (hx : Keeps inv x) (hf : ∀ u, Keeps inv (f u)) :
    Keeps inv (if p then x >>= f else f ⟨⟩) :=
  keeps_ite (keeps_bind hx hf) (hf _)

theorem keeps_loop {stuck : ε} {body : β → EStateM ε σ (β × Bool)} (hbody : ∀ b, Keeps inv (body b))
    (fuel : Nat) (b : β) : Keeps inv (loop stuck body fuel b) := by
  induction fuel generalizing b with
  | zero => exact keeps_throw stuck
  | succ fuel ih =>
    refine keeps_bind (hbody b) fun p => ?_
    exact keeps_ite (ih p.1) (keeps_pure p.1)

/-- A running function whose handler, if it has one, keeps the invariant too. -/
def Guarded (inv : σ → Prop) (f : Frame ε σ) : Prop :=
  inv f.state ∧ ∀ exit, f.exit = some exit → Keeps inv exit

theorem keeps_lift (hx : Keeps inv x) :
    Keeps (Guarded inv) (liftM x : EStateM ε (Frame ε σ) α) := by
  intro f hf
  apply ends_lift
  exact ends_mono (hx f.state hf.1) (fun _ _ hs => ⟨hs, hf.2⟩) fun _ _ hs => ⟨hs, hf.2⟩

theorem keeps_onExit {exit : Option (EStateM ε σ Unit)} (h : ∀ y, exit = some y → Keeps inv y) :
    Keeps (Guarded inv) (onExit exit) := fun _ hf => ⟨hf.1, h⟩

theorem keeps_function {body : EStateM ε (Frame ε σ) α} (h : Keeps (Guarded inv) body) :
    Keeps inv (function body) := by
  have hleave : ∀ f : Frame ε σ, Guarded inv f →
      Ends (fun _ s => inv s) (fun _ s => inv s) f.leave := by
    intro f hf
    unfold Frame.leave
    cases hexit : f.exit with
    | none => exact hf.1
    | some exit => exact hf.2 exit hexit f.state hf.1
  intro s hs
  apply ends_function
  have hbody := h { state := s, exit := none } ⟨hs, fun _ hno => by cases hno⟩
  exact ends_mono hbody (fun _ f hf => hleave f hf) fun _ f hf => hleave f hf

end Keeps

end RSQLCipher.Library
