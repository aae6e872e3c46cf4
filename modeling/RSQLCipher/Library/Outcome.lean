import Mathlib.Init

namespace RSQLCipher.Library

variable {ε σ τ α β γ δ : Type}

/-- A computation ends well in a value and a state, or raises an error and leaves a
state. -/
def Ends (post : α → σ → Prop) (raised : ε → σ → Prop) : EStateM.Result ε σ α → Prop
  | .ok a s => post a s
  | .error e s => raised e s

@[simp] theorem ends_ok (post : α → σ → Prop) (raised : ε → σ → Prop) (a : α) (s : σ) :
    Ends post raised (.ok a s) ↔ post a s := Iff.rfl

@[simp] theorem ends_error (post : α → σ → Prop) (raised : ε → σ → Prop) (e : ε) (s : σ) :
    Ends post raised (.error e s : EStateM.Result ε σ α) ↔ raised e s := Iff.rfl

instance (post : α → σ → Prop) (raised : ε → σ → Prop) [∀ a s, Decidable (post a s)]
    [∀ e s, Decidable (raised e s)] (r : EStateM.Result ε σ α) : Decidable (Ends post raised r) :=
  match r with
  | .ok a s => inferInstanceAs (Decidable (post a s))
  | .error e s => inferInstanceAs (Decidable (raised e s))

theorem ends_mono {post post' : α → σ → Prop} {raised raised' : ε → σ → Prop}
    {r : EStateM.Result ε σ α} (h : Ends post raised r) (hpost : ∀ a s, post a s → post' a s)
    (hraised : ∀ e s, raised e s → raised' e s) : Ends post' raised' r := by
  cases r with
  | ok a s => exact hpost a s h
  | error e s => exact hraised e s h

theorem ends_bind {x : EStateM ε σ α} {f : α → EStateM ε σ β} {s : σ} {mid : α → σ → Prop}
    {post : β → σ → Prop} {raised : ε → σ → Prop} (hx : Ends mid raised (x s))
    (hf : ∀ a s', mid a s' → Ends post raised (f a s')) : Ends post raised ((x >>= f) s) := by
  change Ends post raised (EStateM.bind x f s)
  simp only [EStateM.bind]
  cases hs : x s with
  | ok a s' =>
    rw [hs] at hx
    exact hf a s' hx
  | error e s' =>
    rw [hs] at hx
    exact hx

@[simp] theorem bind_apply (x : EStateM ε σ α) (f : α → EStateM ε σ β) (s : σ) :
    (x >>= f) s = match x s with
      | .ok a s' => f a s'
      | .error e s' => .error e s' := rfl

@[simp] theorem pure_apply (a : α) (s : σ) : (pure a : EStateM ε σ α) s = .ok a s := rfl

@[simp] theorem map_apply (f : α → β) (x : EStateM ε σ α) (s : σ) :
    (f <$> x) s = match x s with
      | .ok a s' => .ok (f a) s'
      | .error e s' => .error e s' := rfl

@[simp] theorem throw_apply (e : ε) (s : σ) : (throw e : EStateM ε σ α) s = .error e s := rfl

@[simp] theorem get_apply (s : σ) : (get : EStateM ε σ σ) s = .ok s s := rfl

@[simp] theorem set_apply (s s' : σ) : (set s' : EStateM ε σ PUnit) s = .ok ⟨⟩ s' := rfl

@[simp] theorem modify_apply (f : σ → σ) (s : σ) :
    (modify f : EStateM ε σ PUnit) s = .ok ⟨⟩ (f s) := rfl

theorem bind_ok {x : EStateM ε σ α} {f : α → EStateM ε σ β} {s s' : σ} {a : α}
    (h : x s = .ok a s') : (x >>= f) s = f a s' := by
  change EStateM.bind x f s = f a s'
  simp only [EStateM.bind, h]

theorem bind_error {x : EStateM ε σ α} {f : α → EStateM ε σ β} {s s' : σ} {e : ε}
    (h : x s = .error e s') : (x >>= f) s = .error e s' := by
  change EStateM.bind x f s = .error e s'
  simp only [EStateM.bind, h]

/-- A loop over an accumulator: the body returns the next one, and whether to go on.
It is given up after a number of rounds. -/
def loop (stuck : ε) (body : β → EStateM ε σ (β × Bool)) : Nat → β → EStateM ε σ β
  | 0, _ => throw stuck
  | fuel + 1, b => do
    let (b, more) ← body b
    if more then loop stuck body fuel b else return b

variable {stuck : ε} {body : β → EStateM ε σ (β × Bool)}

theorem loop_more {b b' : β} {s s' : σ} (h : body b s = .ok (b', true) s') (fuel : Nat) :
    loop stuck body (fuel + 1) b s = loop stuck body fuel b' s' := bind_ok h

theorem loop_stop {b b' : β} {s s' : σ} (h : body b s = .ok (b', false) s') (fuel : Nat) :
    loop stuck body (fuel + 1) b s = .ok b' s' := bind_ok h

theorem loop_error {b : β} {e : ε} {s s' : σ} (h : body b s = .error e s') (fuel : Nat) :
    loop stuck body (fuel + 1) b s = .error e s' := bind_error h

/-- What a computation gives, when its values and states are seen through functions. -/
def view (f : α → β) (g : σ → τ) : EStateM.Result ε σ α → EStateM.Result ε τ β
  | .ok a s => .ok (f a) (g s)
  | .error e s => .error e (g s)

theorem view_bind {f : α → β} {f' : γ → δ} {g : σ → τ} {x : EStateM ε σ α} {y : EStateM ε τ β}
    {k : α → EStateM ε σ γ} {k' : β → EStateM ε τ δ} {s : σ} (hx : view f g (x s) = y (g s))
    (hk : ∀ a s', view f' g (k a s') = k' (f a) (g s')) :
    view f' g ((x >>= k) s) = (y >>= k') (g s) := by
  cases hs : x s with
  | ok a s' =>
    rw [hs] at hx
    rw [bind_ok hs, bind_ok hx.symm]
    exact hk a s'
  | error e s' =>
    rw [hs] at hx
    rw [bind_error hs, bind_error hx.symm]
    rfl

/-- A loop is seen as the loop of what its body is seen as. -/
theorem view_loop {f : β → δ} {g : σ → τ} {body' : δ → EStateM ε τ (δ × Bool)}
    (hbody : ∀ b s, view (Prod.map f id) g (body b s) = body' (f b) (g s)) (fuel : Nat) (b : β)
    (s : σ) : view f g (loop stuck body fuel b s) = loop stuck body' fuel (f b) (g s) := by
  induction fuel generalizing b s with
  | zero => rfl
  | succ fuel ih =>
    refine view_bind (hbody b s) ?_
    rintro ⟨b', more⟩ s'
    cases more with
    | false => rfl
    | true => exact ih b' s'

/-- The rule for loops: an invariant that the body keeps while it goes on, a measure
that it decreases, and what holds when it stops or raises. -/
theorem ends_loop (inv : β → σ → Prop) (measure : β → σ → Nat) {post : β → σ → Prop}
    {raised : ε → σ → Prop}
    (hbody : ∀ b s, inv b s → Ends (fun p s' =>
      if p.2 then inv p.1 s' ∧ measure p.1 s' < measure b s else post p.1 s') raised (body b s))
    (fuel : Nat) (b : β) (s : σ) (hinv : inv b s) (hfuel : measure b s < fuel) :
    Ends post raised (loop stuck body fuel b s) := by
  induction fuel generalizing b s with
  | zero => exact absurd hfuel (Nat.not_lt_zero _)
  | succ fuel ih =>
    have hround := hbody b s hinv
    cases hs : body b s with
    | error e s' =>
      rw [hs] at hround
      rw [loop_error hs]
      exact hround
    | ok p s' =>
      obtain ⟨b', more⟩ := p
      rw [hs] at hround
      cases more with
      | false =>
        rw [loop_stop hs]
        exact hround
      | true =>
        rw [loop_more hs]
        exact ih b' s' hround.1 (Nat.lt_of_lt_of_le hround.2 (Nat.le_of_lt_succ hfuel))

end RSQLCipher.Library
