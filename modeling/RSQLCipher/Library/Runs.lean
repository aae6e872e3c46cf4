import Mathlib.Init

namespace RSQLCipher.Library

variable {σ ι : Type} (next : σ → ι → σ)

def runCalls (s : σ) (calls : List ι) : σ := calls.foldl next s

/-- Every call of a run satisfies a condition in the state in which it is made. -/
def Along (cond : σ → ι → Prop) : σ → List ι → Prop
  | _, [] => True
  | s, c :: calls => cond s c ∧ Along cond (next s c) calls

instance (cond : σ → ι → Prop) [∀ s c, Decidable (cond s c)] (s : σ) :
    (calls : List ι) → Decidable (Along next cond s calls)
  | [] => .isTrue trivial
  | c :: calls =>
    have := instDecidableAlong cond (next s c) calls
    inferInstanceAs (Decidable (cond s c ∧ Along next cond (next s c) calls))

theorem along_of_forall {cond : ι → Prop} (s : σ) (calls : List ι) (h : ∀ c ∈ calls, cond c) :
    Along next (fun _ c => cond c) s calls := by
  induction calls generalizing s with
  | nil => trivial
  | cons c calls ih =>
    exact ⟨h c List.mem_cons_self, ih _ fun d hd => h d (List.mem_cons_of_mem c hd)⟩

theorem along_of_all {goal : σ → ι → Prop} (h : ∀ s c, goal s c) (s : σ) (calls : List ι) :
    Along next goal s calls := by
  induction calls generalizing s with
  | nil => trivial
  | cons c calls ih => exact ⟨h s c, ih _⟩

variable {next}

/-- What a call made under the condition keeps holds after the run. -/
theorem invariant_runCalls (inv : σ → Prop) {cond : σ → ι → Prop}
    (hstep : ∀ s c, inv s → cond s c → inv (next s c)) {s : σ} (h : inv s) (calls : List ι)
    (hcalls : Along next cond s calls) : inv (runCalls next s calls) := by
  induction calls generalizing s with
  | nil => exact h
  | cons c calls ih => exact ih (hstep s c h hcalls.1) hcalls.2

theorem along_of_invariant {inv : σ → Prop} {cond goal : σ → ι → Prop}
    (hstep : ∀ s c, inv s → cond s c → inv (next s c))
    (hgoal : ∀ s c, inv s → cond s c → goal s c) {s : σ} (h : inv s) (calls : List ι)
    (hcalls : Along next cond s calls) : Along next goal s calls := by
  induction calls generalizing s with
  | nil => trivial
  | cons c calls ih =>
    exact ⟨hgoal s c h hcalls.1, ih (hstep s c h hcalls.1) hcalls.2⟩

/-- Where an invariant makes two conditions on a call the same, and the calls that satisfy
them keep it, the runs that satisfy them are the same. -/
theorem along_iff (inv : σ → Prop) {cond goal : σ → ι → Prop}
    (hstep : ∀ s c, inv s → cond s c → inv (next s c))
    (hgoal : ∀ s c, inv s → (goal s c ↔ cond s c)) {s : σ} (h : inv s) (calls : List ι) :
    Along next goal s calls ↔ Along next cond s calls := by
  induction calls generalizing s with
  | nil => exact Iff.rfl
  | cons c calls ih =>
    constructor
    · rintro ⟨hc, hcalls⟩
      have hcond := (hgoal s c h).mp hc
      exact ⟨hcond, (ih (hstep s c h hcond)).mp hcalls⟩
    · rintro ⟨hc, hcalls⟩
      exact ⟨(hgoal s c h).mpr hc, (ih (hstep s c h hc)).mpr hcalls⟩

end RSQLCipher.Library
