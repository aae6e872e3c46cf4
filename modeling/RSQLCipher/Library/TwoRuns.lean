import RSQLCipher.Library.Outcome

namespace RSQLCipher.Library

variable {ε σ α β γ δ : Type}

/-- The state that a computation leaves. -/
def leaves : EStateM.Result ε σ α → σ
  | .ok _ s => s
  | .error _ s => s

/-- Two computations both return, or both raise the same error. -/
def Alike (post : α → σ → β → σ → Prop) (raised : σ → σ → Prop) :
    EStateM.Result ε σ α → EStateM.Result ε σ β → Prop
  | .ok a s, .ok b t => post a s b t
  | .error e s, .error e' t => e = e' ∧ raised s t
  | _, _ => False

section Rules

variable {post : α → σ → β → σ → Prop} {raised : σ → σ → Prop}

theorem alike_cases {r : EStateM.Result ε σ α} {r' : EStateM.Result ε σ β}
    (h : Alike post raised r r') :
    (∃ a s b t, r = .ok a s ∧ r' = .ok b t ∧ post a s b t) ∨
      ∃ e s t, r = .error e s ∧ r' = .error e t ∧ raised s t := by
  cases r with
  | ok a s =>
    cases r' with
    | ok b t => exact .inl ⟨a, s, b, t, rfl, rfl, h⟩
    | error e t => exact h.elim
  | error e s =>
    cases r' with
    | ok b t => exact h.elim
    | error e' t =>
      obtain ⟨rfl, h⟩ := h
      exact .inr ⟨e, s, t, rfl, rfl, h⟩

theorem alike_mono {post' : α → σ → β → σ → Prop} {raised' : σ → σ → Prop}
    {r : EStateM.Result ε σ α} {r' : EStateM.Result ε σ β} (h : Alike post raised r r')
    (hpost : ∀ a s b t, post a s b t → post' a s b t) (hraised : ∀ s t, raised s t → raised' s t) :
    Alike post' raised' r r' := by
  obtain ⟨a, s, b, t, rfl, rfl, hmid⟩ | ⟨e, s, t, rfl, rfl, hmid⟩ := alike_cases h
  · exact hpost a s b t hmid
  · exact ⟨rfl, hraised s t hmid⟩

theorem alike_bind {x : EStateM ε σ α} {y : EStateM ε σ β} {f : α → EStateM ε σ γ}
    {g : β → EStateM ε σ δ} {s t : σ} {mid : α → σ → β → σ → Prop}
    {post : γ → σ → δ → σ → Prop}
    (hxy : Alike mid raised (x s) (y t))
    (hfg : ∀ a s' b t', mid a s' b t' → Alike post raised (f a s') (g b t')) :
    Alike post raised ((x >>= f) s) ((y >>= g) t) := by
  obtain ⟨a, s', b, t', hx, hy, h⟩ | ⟨e, s', t', hx, hy, h⟩ := alike_cases hxy
  · rw [bind_ok hx, bind_ok hy]
    exact hfg a s' b t' h
  · rw [bind_error hx, bind_error hy]
    exact ⟨rfl, h⟩

/-- The rule for two loops that go on together. -/
theorem alike_loop {stuck : ε} {body : β → EStateM ε σ (β × Bool)}
    {body' : γ → EStateM ε σ (γ × Bool)} (inv : β → σ → γ → σ → Prop)
    (hinv : ∀ b s c t, inv b s c t → raised s t)
    (hbody : ∀ b s c t, inv b s c t → Alike (fun p s' q t' => p.2 = q.2 ∧ inv p.1 s' q.1 t') raised
      (body b s) (body' c t))
    (fuel : Nat) (b : β) (s : σ) (c : γ) (t : σ) (h : inv b s c t) :
    Alike inv raised (loop stuck body fuel b s) (loop stuck body' fuel c t) := by
  induction fuel generalizing b s c t with
  | zero => exact ⟨rfl, hinv b s c t h⟩
  | succ fuel ih =>
    refine alike_bind (hbody b s c t h) ?_
    rintro ⟨b', more⟩ s' ⟨c', more'⟩ t' ⟨hmore, h'⟩
    obtain rfl : more = more' := hmore
    cases more with
    | false => exact h'
    | true => exact ih b' s' c' t' h'

end Rules

/-- A computation does not see a change of the state, and keeps it. -/
def Blind (change : σ → σ) (x : EStateM ε σ α) : Prop := ∀ s,
  Alike (fun a s' b t' => a = b ∧ t' = change s') (fun s' t' => t' = change s') (x s) (x (change s))

section Blind

variable {change : σ → σ}

theorem blind_pure (a : α) : Blind change (pure a : EStateM ε σ α) := fun _ => ⟨rfl, rfl⟩

theorem blind_modify {f : σ → σ} (hf : ∀ s, f (change s) = change (f s)) :
    Blind change (modify f : EStateM ε σ PUnit) := fun s => ⟨rfl, hf s⟩

theorem blind_bind {x : EStateM ε σ α} {f : α → EStateM ε σ β} (hx : Blind change x)
    (hf : ∀ a, Blind change (f a)) : Blind change (x >>= f) := by
  intro s
  refine alike_bind (hx s) ?_
  rintro a s' _ _ ⟨rfl, rfl⟩
  exact hf a s'

theorem blind_ite {p : Prop} [Decidable p] {x y : EStateM ε σ α} (hx : Blind change x)
    (hy : Blind change y) : Blind change (if p then x else y) := by
  by_cases hp : p
  · rw [if_pos hp]
    exact hx
  · rw [if_neg hp]
    exact hy

theorem blind_loop {stuck : ε} {body : β → EStateM ε σ (β × Bool)}
    (hbody : ∀ b, Blind change (body b)) (fuel : Nat) (b : β) :
    Blind change (loop stuck body fuel b) := by
  intro s
  refine alike_mono (alike_loop (fun b s c t => b = c ∧ t = change s) (fun _ _ _ _ h => h.2) ?_
    fuel b s b (change s) ⟨rfl, rfl⟩) (fun _ _ _ _ h => h) fun _ _ h => h
  rintro b s _ _ ⟨rfl, rfl⟩
  refine alike_mono (hbody b s) ?_ fun _ _ h => h
  rintro p s' _ _ ⟨rfl, rfl⟩
  exact ⟨rfl, rfl, rfl⟩

theorem leaves_blind {x : EStateM ε σ α} (hx : Blind change x) (s : σ) :
    leaves (x (change s)) = change (leaves (x s)) := by
  obtain ⟨a, s', b, t', hs, ht, h⟩ | ⟨e, s', t', hs, ht, h⟩ := alike_cases (hx s)
  · rw [hs, ht]
    exact h.2
  · rw [hs, ht]
    exact h

end Blind

/-- Where one computation returns, the other one returns the same. -/
def ReturnsAs (x y : EStateM ε σ α) : Prop := ∀ s a s', x s = .ok a s' → y s = .ok a s'

end RSQLCipher.Library
