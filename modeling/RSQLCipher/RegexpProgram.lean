import RSQLCipher.RegexpMatch

namespace RSQLCipher.RegexpProgram

open RSQLCipher.Values
open RSQLCipher.RegexpCompile
open RSQLCipher.RegexpCompile.ReCompiled

/-- An instruction at a place of a program under construction jumps back no further than a
bound and ahead no further than the top. -/
def Fits (b t i : ℕ) : Instr → Prop
  | (.fork, arg) => (b : ℤ) ≤ i + arg ∧ (i : ℤ) + arg ≤ t
  | (.goto, arg) | (.ccInc, arg) | (.ccExc, arg) => 1 ≤ arg ∧ (i : ℤ) + arg ≤ t
  | (.accept, _) => False
  | _ => True

theorem fits_mono {b b' t u i : ℕ} (hb : b' ≤ b) (htop : t ≤ u) {o : Instr}
    (h : Fits b t i o) : Fits b' u i o := by
  obtain ⟨op, arg⟩ := o
  cases op <;> simp only [Fits] at h ⊢ <;> omega

/-- Jumps are relative: code that moves ahead keeps its bounds. -/
theorem fits_shift {b t i : ℕ} {o : Instr} (h : Fits b t i o) (k : ℕ) :
    Fits b (t + k) (i + k) o := by
  obtain ⟨op, arg⟩ := o
  cases op <;> simp only [Fits] at h ⊢ <;> omega

/-- From a bound on, all jumps of a program stay between it and the top. -/
def ClosedTo (b t : ℕ) (ops : List Instr) : Prop :=
  ∀ i o, b ≤ i → ops[i]? = some o → Fits b t i o

abbrev Closed (b : ℕ) (ops : List Instr) : Prop := ClosedTo b ops.length ops

section Code

variable {b t : ℕ} {ops : List Instr}

theorem closedTo_of_length_le {b t : ℕ} (h : ops.length ≤ b) : ClosedTo b t ops := by
  intro i o hi hget
  rw [List.getElem?_eq_none (h.trans hi)] at hget
  cases hget

theorem closedTo_mono {u : ℕ} (htop : t ≤ u) (h : ClosedTo b t ops) :
    ClosedTo b u ops :=
  fun i o hi hget => fits_mono le_rfl htop (h i o hi hget)

theorem closedTo_insert (h : ClosedTo b t ops) {q : ℕ} (hb : b ≤ q) (hq : q ≤ ops.length)
    {u : ℕ} (htop : t + 1 ≤ u) {o : Instr} (ho : Fits b u q o) :
    ClosedTo b u (ops.take q ++ o :: ops.drop q) := by
  intro i o' hi hget
  obtain hlt | rfl | hgt := lt_trichotomy i q
  · rw [List.getElem?_append_left (by rw [List.length_take]; omega),
      List.getElem?_take_of_lt hlt] at hget
    exact fits_mono le_rfl (by omega) (h i o' hi hget)
  · rw [List.getElem?_append_right (by simp), List.length_take, Nat.min_eq_left hq,
      Nat.sub_self, List.getElem?_cons_zero, Option.some.injEq] at hget
    exact hget ▸ ho
  · obtain ⟨j, rfl⟩ : ∃ j, i = j + 1 := ⟨i - 1, by omega⟩
    rw [List.getElem?_append_right (by rw [List.length_take]; omega), List.length_take,
      Nat.min_eq_left hq, show j + 1 - q = j - q + 1 by omega, List.getElem?_cons_succ,
      List.getElem?_drop, show q + (j - q) = j by omega] at hget
    exact fits_mono le_rfl htop (fits_shift (h j o' (by omega) hget) 1)

theorem closedTo_append (h : ClosedTo b t ops) {new : List Instr}
    (hnew : ∀ k o, new[k]? = some o → Fits b t (ops.length + k) o) :
    ClosedTo b t (ops ++ new) := by
  intro i o hi hget
  obtain hlt | hge := Nat.lt_or_ge i ops.length
  · rw [List.getElem?_append_left hlt] at hget
    exact h i o hi hget
  · rw [List.getElem?_append_right hge] at hget
    have hfits := hnew _ _ hget
    rwa [Nat.add_sub_cancel' hge] at hfits

/-- A copy of the end of closed code fits behind whatever has been added to it. -/
theorem fits_copy {ops₀ : List Instr} (h : Closed b ops₀) {i N : ℕ} (hb : b ≤ i)
    (hi : i + N = ops₀.length) (hp : ops₀ <+: ops) {k : ℕ} {o : Instr}
    (hget : ((ops.drop i).take N)[k]? = some o) :
    k < N ∧ Fits b (ops.length + N) (ops.length + k) o := by
  have hk : k < N := by
    have hlt := (List.getElem?_eq_some_iff.mp hget).1
    rw [List.length_take] at hlt
    omega
  have hlen := hp.length_le
  obtain ⟨stuff, rfl⟩ := hp
  rw [List.getElem?_take_of_lt hk, List.getElem?_drop,
    List.getElem?_append_left (by omega)] at hget
  have hfits := fits_shift (h (i + k) o (by omega) hget) ((ops₀ ++ stuff).length - i)
  have hplace : i + k + ((ops₀ ++ stuff).length - i) = (ops₀ ++ stuff).length + k := by omega
  have htop : ops₀.length + ((ops₀ ++ stuff).length - i) = (ops₀ ++ stuff).length + N := by omega
  rw [hplace, htop] at hfits
  exact ⟨hk, hfits⟩

/-- An instruction whose argument is filled in last. -/
theorem closed_setArg {i : ℕ} {arg : ℤ} (hbefore : ClosedTo b t (ops.take i))
    (htop : t ≤ ops.length) (hafter : Closed (i + 1) ops) (hb : b ≤ i)
    (ho : ∀ o, ops[i]? = some o → Fits b ops.length i (o.1, arg)) :
    Closed b (ops.modify i fun o => (o.1, arg)) := by
  intro j o hj hget
  rw [List.length_modify]
  rw [List.getElem?_modify, Option.map_eq_map, Option.map_eq_some_iff] at hget
  obtain ⟨o', ho', rfl⟩ := hget
  obtain hlt | rfl | hgt := lt_trichotomy j i
  · rw [if_neg (by omega)]
    rw [← List.getElem?_take_of_lt hlt] at ho'
    exact fits_mono le_rfl htop (hbefore j o' hj ho')
  · rw [if_pos rfl]
    exact ho o' ho'
  · rw [if_neg (by omega)]
    exact fits_mono (by omega) le_rfl (hafter j o' (by omega) ho')

end Code

section Steps

variable (p : ReCompiled)

theorem reInsert_cases (iBefore : ℕ) (op : ReOp) (arg : ℤ) :
    p.reInsert iBefore op arg = (p.fail "REGEXP pattern too big", 0) ∨
    ∃ N, p.reInsert iBefore op arg = ({ p with
      nAlloc := N, ops := p.ops.take iBefore ++ (op, arg) :: p.ops.drop iBefore }, iBefore) := by
  unfold reInsert reResize
  by_cases hroom : p.nAlloc ≤ p.nState
  · by_cases hlimit : p.nAlloc * 2 > p.mxAlloc
    · left
      simp [hroom, hlimit, fail]
    · right
      exact ⟨p.nAlloc * 2, by simp [hroom, hlimit]⟩
  · right
    exact ⟨p.nAlloc, by simp [hroom]⟩

theorem reCopy_cases (iStart N : ℕ) :
    p.reCopy iStart N = p.fail "REGEXP pattern too big" ∨
    ∃ M, p.reCopy iStart N =
      { p with nAlloc := M, ops := p.ops ++ (p.ops.drop iStart).take N } := by
  unfold reCopy reResize
  by_cases hroom : p.nState + N ≥ p.nAlloc
  · by_cases hlimit : p.nAlloc * 2 + N > p.mxAlloc
    · left
      simp [hroom, hlimit, fail]
    · right
      exact ⟨p.nAlloc * 2 + N, by simp [hroom, hlimit]⟩
  · right
    exact ⟨p.nAlloc, by simp [hroom]⟩

end Steps

/-- What no step of the compiler changes, and what it never undoes. -/
structure Follows (p p' : ReCompiled) : Prop where
  longer : p.nState ≤ p'.nState
  shorter : p'.sIn.length ≤ p.sIn.length
  noCase : p'.noCase = p.noCase
  zInit : p'.zInit = p.zInit
  mxAlloc : p'.mxAlloc = p.mxAlloc
  zErr : p'.zErr = none → p.zErr = none

section Follows

variable {p p' p'' : ReCompiled}

theorem follows_refl (p : ReCompiled) : Follows p p :=
  ⟨le_rfl, le_rfl, rfl, rfl, rfl, id⟩

theorem Follows.trans (h : Follows p p') (h' : Follows p' p'') : Follows p p'' :=
  ⟨h.longer.trans h'.longer, h'.shorter.trans h.shorter, h'.noCase.trans h.noCase,
    h'.zInit.trans h.zInit, h'.mxAlloc.trans h.mxAlloc, fun hz => h.zErr (h'.zErr hz)⟩

theorem follows_of_sIn {z : Bytes} (hz : z.length ≤ p.sIn.length) :
    Follows p { p with sIn := z } :=
  ⟨le_rfl, hz, rfl, rfl, rfl, id⟩

theorem follows_advance : Follows p p.advance :=
  follows_of_sIn (by rw [List.length_tail]; omega)

theorem follows_fail (zErr : String) : Follows p (p.fail zErr) :=
  ⟨le_rfl, le_rfl, rfl, rfl, rfl, by simp [fail]⟩

theorem follows_reInsert (iBefore : ℕ) (op : ReOp) (arg : ℤ) :
    Follows p (p.reInsert iBefore op arg).1 := by
  obtain h | ⟨N, h⟩ := reInsert_cases p iBefore op arg
  · rw [h]
    exact follows_fail _
  · rw [h]
    refine ⟨?_, le_rfl, rfl, rfl, rfl, id⟩
    simp only [nState, List.length_append, List.length_take, List.length_cons, List.length_drop]
    omega

theorem follows_reAppend (op : ReOp) (arg : ℤ) : Follows p (p.reAppend op arg).1 :=
  follows_reInsert _ op arg

theorem follows_reCopy (iStart N : ℕ) : Follows p (p.reCopy iStart N) := by
  obtain h | ⟨M, h⟩ := reCopy_cases p iStart N
  · rw [h]
    exact follows_fail _
  · rw [h]
    refine ⟨?_, le_rfl, rfl, rfl, rfl, id⟩
    simp [nState]

theorem follows_setArg (i : ℕ) (arg : ℤ) : Follows p (p.setArg i arg) :=
  ⟨by simp [nState, setArg], le_rfl, rfl, rfl, rfl, id⟩

theorem follows_copies (i N k : ℕ) (p : ReCompiled) : Follows p (copies i N k p) := by
  induction k generalizing p with
  | zero => exact follows_refl p
  | succ k ih => exact (follows_reCopy i N).trans (ih _)

theorem follows_optionalCopies (i N k : ℕ) (p : ReCompiled) :
    Follows p (optionalCopies i N k p) := by
  induction k generalizing p with
  | zero => exact follows_refl p
  | succ k ih => exact ((follows_reAppend _ _).trans (follows_reCopy i N)).trans (ih _)

end Follows

/-- A step that leaves the code before a place as it is, and closed code closed. -/
structure Grows (s : ℕ) (p p' : ReCompiled) : Prop where
  follows : Follows p p'
  keeps : p'.zErr = none → ∀ b ≤ s,
    p'.ops.take b = p.ops.take b ∧ (Closed b p.ops → Closed b p'.ops)

section Grows

variable {s : ℕ} {p p' p'' : ReCompiled}

theorem grows_of_ops (h : Follows p p') (hops : p'.ops = p.ops) : Grows s p p' := by
  refine ⟨h, fun _ b _ => ?_⟩
  rw [hops]
  exact ⟨rfl, id⟩

theorem grows_refl (s : ℕ) (p : ReCompiled) : Grows s p p := grows_of_ops (follows_refl p) rfl

theorem Grows.trans (h : Grows s p p') (h' : Grows s p' p'') : Grows s p p'' := by
  refine ⟨h.follows.trans h'.follows, fun hz b hb => ?_⟩
  obtain ⟨htake', hclosed'⟩ := h'.keeps hz b hb
  obtain ⟨htake, hclosed⟩ := h.keeps (h'.follows.zErr hz) b hb
  exact ⟨htake'.trans htake, hclosed' ∘ hclosed⟩

theorem grows_reInsert {iBefore : ℕ} {op : ReOp} {arg : ℤ} (hs : s ≤ iBefore)
    (hi : iBefore ≤ p.nState) (ho : Fits s (p.nState + 1) iBefore (op, arg)) :
    Grows s p (p.reInsert iBefore op arg).1 := by
  refine ⟨follows_reInsert _ _ _, fun hz b hb => ?_⟩
  have hbi : b ≤ iBefore := hb.trans hs
  obtain h | ⟨N, h⟩ := reInsert_cases p iBefore op arg
  · rw [h] at hz
    cases hz
  rw [h]
  have hlen : (p.ops.take iBefore).length = iBefore := by
    rw [List.length_take]
    exact Nat.min_eq_left hi
  constructor
  · dsimp only
    rw [List.take_append_of_le_length (by omega), List.take_take, Nat.min_eq_left hbi]
  · intro hclosed
    have htop : (p.ops.take iBefore ++ (op, arg) :: p.ops.drop iBefore).length =
        p.ops.length + 1 := by
      have hi' : iBefore ≤ p.ops.length := hi
      rw [List.length_append, List.length_cons, List.length_drop, hlen]
      omega
    unfold Closed
    dsimp only
    rw [htop]
    exact closedTo_insert hclosed hbi hi le_rfl (fits_mono hb le_rfl ho)

theorem grows_reAppend {op : ReOp} {arg : ℤ} (hs : s ≤ p.nState)
    (ho : Fits s (p.nState + 1) p.nState (op, arg)) : Grows s p (p.reAppend op arg).1 :=
  grows_reInsert hs le_rfl ho

/-- Steps that add copies of the end of closed code, from a place on. -/
structure Copied (ops₀ : List Instr) (i : ℕ) (p p' : ReCompiled) : Prop where
  stays : p.ops <+: p'.ops
  closed : ∀ b ≤ i, ops₀ <+: p.ops → Closed b ops₀ → Closed b p.ops → Closed b p'.ops

variable {ops₀ : List Instr} {i N : ℕ}

theorem Copied.trans (h : Copied ops₀ i p p') (h' : Copied ops₀ i p' p'') :
    Copied ops₀ i p p'' :=
  ⟨h.stays.trans h'.stays, fun b hb hp h₀ hc =>
    h'.closed b hb (hp.trans h.stays) h₀ (h.closed b hb hp h₀ hc)⟩

theorem copied_refl : Copied ops₀ i p p := ⟨List.prefix_rfl, fun _ _ _ _ h => h⟩

theorem copied_reCopy (hi : i + N = ops₀.length) (hz : (p.reCopy i N).zErr = none) :
    Copied ops₀ i p (p.reCopy i N) := by
  obtain h | ⟨M, h⟩ := reCopy_cases p i N
  · rw [h] at hz
    cases hz
  rw [h]
  refine ⟨List.prefix_append _ _, fun b hb hp h₀ hc => ?_⟩
  have hlen : ((p.ops.drop i).take N).length = N := by
    have := hp.length_le
    rw [List.length_take, List.length_drop]
    omega
  unfold Closed
  rw [List.length_append, hlen]
  apply closedTo_append (closedTo_mono (Nat.le_add_right _ _) hc)
  intro k o hget
  exact (fits_copy h₀ hb hi hp hget).2

theorem copied_optionalCopy (hi : i + N = ops₀.length)
    (hz : ((p.reAppend .fork (N + 1)).1.reCopy i N).zErr = none) :
    Copied ops₀ i p ((p.reAppend .fork (N + 1)).1.reCopy i N) := by
  have hz' := (follows_reCopy i N).zErr hz
  obtain h | ⟨N', h⟩ := reInsert_cases p p.nState .fork (N + 1)
  · rw [reAppend, h] at hz'
    cases hz'
  rw [reAppend, h] at hz ⊢
  obtain h' | ⟨M, h'⟩ := reCopy_cases ({ p with
    nAlloc := N', ops := p.ops.take p.nState ++ (.fork, (N : ℤ) + 1) :: p.ops.drop p.nState }) i N
  · rw [h'] at hz
    cases hz
  rw [h']
  simp only [nState, List.take_length, List.drop_length]
  refine ⟨by simp [List.append_assoc], fun b hb hp h₀ hc => ?_⟩
  have hp' : ops₀ <+: p.ops ++ [(.fork, (N : ℤ) + 1)] := hp.trans (List.prefix_append _ _)
  have hle := hp.length_le
  have hlen : (((p.ops ++ [(ReOp.fork, (N : ℤ) + 1)]).drop i).take N).length = N := by
    rw [List.length_take, List.length_drop, List.length_append]
    omega
  unfold Closed
  rw [List.length_append, hlen]
  apply closedTo_append
  · apply closedTo_append (closedTo_mono (by simp; omega) hc)
    intro k o hget
    obtain ⟨hk, rfl⟩ := List.getElem?_eq_some_iff.mp hget
    rw [List.length_singleton] at hk
    obtain rfl : k = 0 := by omega
    simp only [Fits, List.getElem_cons_zero, List.length_append, List.length_singleton]
    omega
  · intro k o hget
    exact (fits_copy h₀ hb hi hp' hget).2

theorem copied_copies (hi : i + N = ops₀.length) (k : ℕ) (p : ReCompiled)
    (hz : (copies i N k p).zErr = none) : Copied ops₀ i p (copies i N k p) := by
  induction k generalizing p with
  | zero => exact copied_refl
  | succ k ih => exact (copied_reCopy hi ((follows_copies _ _ _ _).zErr hz)).trans (ih _ hz)

theorem copied_optionalCopies (hi : i + N = ops₀.length) (k : ℕ) (p : ReCompiled)
    (hz : (optionalCopies i N k p).zErr = none) :
    Copied ops₀ i p (optionalCopies i N k p) := by
  induction k generalizing p with
  | zero => exact copied_refl
  | succ k ih =>
    exact (copied_optionalCopy hi ((follows_optionalCopies _ _ _ _).zErr hz)).trans (ih _ hz)

theorem grows_of_copied (hs : s ≤ i) (hi : i ≤ p.nState) (hfollows : Follows p p')
    (h : p'.zErr = none → Copied p.ops i p p') : Grows s p p' := by
  refine ⟨hfollows, fun hz b hb => ?_⟩
  have hcopied := h hz
  constructor
  · obtain ⟨new, hnew⟩ := hcopied.stays
    have hlen : b ≤ p.ops.length := (hb.trans hs).trans hi
    rw [← hnew, List.take_append_of_le_length hlen]
  · intro hc
    exact hcopied.closed b (hb.trans hs) List.prefix_rfl hc hc

theorem grows_repeatCode {iPrev m n : ℕ} (hs : s ≤ iPrev) (hi : iPrev ≤ p.nState) (hmn : m ≤ n)
    (h : repeatCode p iPrev m n = .ok p') : Grows s p p' := by
  unfold repeatCode at h
  dsimp only at h
  split_ifs at h with hm hn hn'
  · cases h
    have hinsert : Grows s p (p.reInsert iPrev .fork ((p.nState - iPrev : ℕ) + 1)).1 := by
      apply grows_reInsert hs hi
      simp only [Fits]
      omega
    obtain h | ⟨N, h⟩ := reInsert_cases p iPrev .fork ((p.nState - iPrev : ℕ) + 1)
    · refine ⟨hinsert.follows.trans (follows_optionalCopies _ _ _ _), fun hz => ?_⟩
      have hz' := (follows_optionalCopies _ _ _ _).zErr hz
      rw [h] at hz'
      cases hz'
    · apply hinsert.trans
      have hlen : (p.reInsert iPrev .fork ((p.nState - iPrev : ℕ) + 1)).1.ops.length =
          p.ops.length + 1 := by
        have hi' : iPrev ≤ p.ops.length := hi
        rw [h]
        simp only [List.length_append, List.length_take, List.length_cons, List.length_drop]
        omega
      apply grows_of_copied (i := iPrev + 1) (by omega)
      · change _ ≤ List.length _
        rw [hlen]
        exact Nat.succ_le_succ hi
      · exact follows_optionalCopies _ _ _ _
      · apply copied_optionalCopies
        rw [hlen]
        unfold nState at hi ⊢
        omega
  · omega
  · cases h
    have hsize : iPrev + (p.nState - iPrev) = p.ops.length := by
      unfold nState at hi ⊢
      omega
    apply grows_of_copied hs hi
    · exact (follows_copies _ _ _ _).trans (follows_optionalCopies _ _ _ _)
    · intro hz
      exact (copied_copies hsize _ _ ((follows_optionalCopies _ _ _ _).zErr hz)).trans
        (copied_optionalCopies hsize _ _ hz)

theorem grows_of_zErr (hfollows : Follows p p') (hz : p'.zErr ≠ none) : Grows s p p' :=
  ⟨hfollows, fun h => absurd h hz⟩

/-- A step behind an instruction whose argument is filled in at the end. -/
theorem grows_setArg {i t : ℕ} {arg : ℤ} (hs : s ≤ i) (hfollows : Follows p p'')
    (hlen : p''.nState = i + 1) (hgrows : Grows (i + 1) p'' p')
    (hbefore : ∀ b ≤ s, p''.ops.take b = p.ops.take b ∧
      (Closed b p.ops → ClosedTo b t (p''.ops.take i)))
    (htop : p'.zErr = none → t ≤ p'.nState)
    (ho : ∀ b ≤ s, ∀ o, p''.ops[i]? = some o → Fits b p'.nState i (o.1, arg)) :
    Grows s p (p'.setArg i arg) := by
  refine ⟨(hfollows.trans hgrows.follows).trans (follows_setArg i arg), fun hz b hb => ?_⟩
  have hz' : p'.zErr = none := hz
  obtain ⟨htake, hclosed⟩ := hbefore b hb
  obtain ⟨htake', -⟩ := hgrows.keeps hz' b (by omega)
  obtain ⟨hstart, hrest⟩ := hgrows.keeps hz' (i + 1) le_rfl
  constructor
  · have hle : (p'.ops.take b).length ≤ i := by
      rw [List.length_take]
      exact (Nat.min_le_left _ _).trans (hb.trans hs)
    rw [setArg, List.take_modify, List.modify_eq_self hle, htake', htake]
  · intro hc
    have hi : p'.ops.take i = p''.ops.take i := by
      have := congrArg (List.take i) hstart
      rwa [List.take_take, List.take_take, Nat.min_eq_left (Nat.le_succ i)] at this
    have hget : p'.ops[i]? = p''.ops[i]? := by
      have := congrArg (fun l => l[i]?) hstart
      simpa using this
    apply closed_setArg (t := t)
    · rw [hi]
      exact hclosed hc
    · exact htop hz'
    · exact hrest (closedTo_of_length_le hlen.le)
    · exact hb.trans hs
    · rw [hget]
      exact ho b hb

theorem shorter_reNextChar (z : Bytes) : (reNextChar z).2.length ≤ z.length - 1 := by
  unfold reNextChar
  split
  · simp
  · dsimp only
    split_ifs <;> (try split) <;> (try split_ifs) <;> simp <;> omega

theorem follows_xNextChar (p : ReCompiled) : Follows p p.xNextChar.2 := by
  have hlen : p.xNextChar.2.sIn.length ≤ p.sIn.length - 1 := by
    unfold xNextChar reNextCharNocase
    cases p.noCase <;> exact shorter_reNextChar p.sIn
  exact follows_of_sIn (z := p.xNextChar.2.sIn) (by omega)

theorem follows_reEscChar (p : ReCompiled) : Follows p (reEscChar p).2 := by
  unfold reEscChar
  split
  · exact follows_refl p
  · rename_i c z hsIn
    split
    · apply follows_of_sIn
      simp [hsIn]
      omega
    · split
      · apply follows_of_sIn
        simp [hsIn]
        omega
      · dsimp only
        split_ifs
        · exact follows_advance
        · exact follows_advance
        · exact follows_fail _

theorem ops_reEscChar (p : ReCompiled) : (reEscChar p).2.ops = p.ops := by
  unfold reEscChar
  split
  · rfl
  · split
    · rfl
    · split
      · rfl
      · dsimp only
        split_ifs <;> rfl

theorem grows_xNextChar (s : ℕ) (p : ReCompiled) : Grows s p p.xNextChar.2 :=
  grows_of_ops (follows_xNextChar p) rfl

theorem grows_advance (s : ℕ) (p : ReCompiled) : Grows s p p.advance :=
  grows_of_ops follows_advance rfl

theorem grows_reEscChar (s : ℕ) (p : ReCompiled) : Grows s p (reEscChar p).2 :=
  grows_of_ops (follows_reEscChar p) (ops_reEscChar p)

theorem grows_classChar (s : ℕ) (p : ReCompiled) : Grows s p (classChar p).2 := by
  unfold classChar
  dsimp only
  split_ifs
  · exact (grows_xNextChar s p).trans (grows_reEscChar s _)
  · exact grows_xNextChar s p

theorem grows_classMember (hs : s ≤ p.nState) : Grows s p (classMember p).2 := by
  have hchar := grows_classChar s p
  have hlonger := hchar.follows.longer
  unfold classMember
  dsimp only
  split_ifs
  · have hfirst : Grows s p ((classChar p).2.reAppend .ccRange (classChar p).1).1 :=
      hchar.trans (grows_reAppend (hs.trans hlonger) trivial)
    have hsecond := (hfirst.trans (grows_advance s _)).trans (grows_classChar s _)
    exact hsecond.trans (grows_reAppend (hs.trans hsecond.follows.longer) trivial)
  · refine hchar.trans (grows_reAppend (hs.trans hlonger) ?_)
    trivial

theorem grows_classLoop {fuel : ℕ} (hs : s ≤ p.nState)
    (h : classLoop fuel p = some (.ok p')) : Grows s p p' := by
  induction fuel generalizing p with
  | zero => cases h
  | succ fuel ih =>
    have hmember := grows_classMember hs
    unfold classLoop at h
    dsimp only at h
    split at h
    · cases h
    split at h
    · cases h
    split at h
    · split at h
      · cases h
      · cases h
        exact hmember.trans (grows_advance s _)
    · exact hmember.trans (ih (hs.trans hmember.follows.longer) h)

theorem andThen_eq {r : ReResult} {f : ReCompiled → ReResult}
    (h : r.andThen f = some (.ok p')) : ∃ q, r = some (.ok q) ∧ f q = some (.ok p') := by
  obtain _ | _ | q := r
  · cases h
  · cases h
  · exact ⟨q, rfl, h⟩

theorem reAppend_cases (p : ReCompiled) (op : ReOp) (arg : ℤ) :
    p.reAppend op arg = (p.fail "REGEXP pattern too big", 0) ∨
    ∃ N, p.reAppend op arg = ({ p with nAlloc := N, ops := p.ops ++ [(op, arg)] }, p.nState) := by
  obtain h | ⟨N, h⟩ := reInsert_cases p p.nState op arg
  · exact .inl h
  · right
    refine ⟨N, h.trans ?_⟩
    simp [nState]

/-- What a class adds behind its first instruction, which is then told how long it is. -/
theorem grows_members {op : ReOp} (hop : op = .ccInc ∨ op = .ccExc) (hs : s ≤ p.nState)
    {q : ReCompiled} (hfollows : Follows p q) (hq : q.zErr = none → q.ops = p.ops ++ [(op, 0)])
    {fuel : ℕ} (h : classLoop fuel q = some (.ok p')) :
    Grows s p (if p'.nState > p.nState then p'.setArg p.nState ((p'.nState : ℤ) - p.nState)
      else p') := by
  have hfollows' := (grows_classLoop (Nat.zero_le _) h).follows
  by_cases hz : q.zErr = none
  · have hops := hq hz
    have hlen : q.nState = p.nState + 1 := by simp [nState, hops]
    have hlonger := hfollows'.longer
    rw [if_pos (by omega)]
    apply grows_setArg hs hfollows hlen (grows_classLoop hlen.ge h)
    · intro b hb
      rw [hops, List.take_append_of_le_length (hb.trans hs), nState, List.take_left]
      exact ⟨rfl, id⟩
    · intro _
      change p.nState ≤ p'.nState
      omega
    · intro b _ o hget
      rw [hops, nState, List.getElem?_append_right le_rfl, Nat.sub_self, List.getElem?_cons_zero,
        Option.some.injEq] at hget
      subst hget
      obtain rfl | rfl := hop <;> simp only [Fits] <;> omega
  · have hz' : p'.zErr ≠ none := fun h' => hz (hfollows'.zErr h')
    split_ifs
    · exact grows_of_zErr ((hfollows.trans hfollows').trans (follows_setArg _ _)) hz'
    · exact grows_of_zErr (hfollows.trans hfollows') hz'

theorem grows_reClass (hs : s ≤ p.nState) (h : reClass p = some (.ok p')) : Grows s p p' := by
  have hops (op : ReOp) (hz : (p.reAppend op 0).1.zErr = none) :
      (p.reAppend op 0).1.ops = p.ops ++ [(op, 0)] := by
    obtain hfail | ⟨N, hok⟩ := reAppend_cases p op 0
    · rw [hfail] at hz
      cases hz
    · rw [hok]
  unfold reClass at h
  dsimp only at h
  obtain ⟨q, hloop, hq⟩ := andThen_eq h
  cases hq
  split_ifs at hloop
  · exact grows_members (.inr rfl) hs ((follows_reAppend _ _).trans follows_advance)
      (hops .ccExc) hloop
  · exact grows_members (.inl rfl) hs (follows_reAppend _ _) (hops .ccInc) hloop

theorem shorter_number {mxAlloc m k : ℕ} {z z' : Bytes} (h : number mxAlloc m z = some (k, z')) :
    z'.length ≤ z.length := by
  induction z generalizing m with
  | nil =>
    cases h
    exact le_rfl
  | cons b z ih =>
    unfold number at h
    dsimp only at h
    split_ifs at h
    · exact (ih h).trans (Nat.le_succ _)
    · cases h
      exact le_rfl

theorem grows_reRepeat {iPrev : Option ℕ} (hprev : ∀ i ∈ iPrev, s ≤ i ∧ i ≤ p.nState)
    (h : reRepeat p iPrev = .ok p') : Grows s p p' := by
  unfold reRepeat at h
  split at h
  · cases h
  rename_i iPrev
  obtain ⟨hs, hi⟩ := hprev iPrev rfl
  split at h
  · cases h
  rename_i m z hm
  split at h
  · cases h
  rename_i n z' hn
  have hz : z'.length ≤ p.sIn.length := by
    have hz₀ := shorter_number hm
    split_ifs at hn
    · have := shorter_number hn
      rw [List.length_tail] at this
      omega
    · cases hn
      exact hz₀
  split_ifs at h with hbrace hlt
  refine (grows_of_ops (follows_of_sIn (z := z'.tail) ?_) rfl).trans
    (grows_repeatCode hs hi (not_lt.mp hlt) h)
  rw [List.length_tail]
  omega

theorem grows_reElement {c : ℕ} {iPrev : Option ℕ} (hs : s ≤ p.nState)
    (hprev : ∀ i ∈ iPrev, s ≤ i ∧ i ≤ p.nState) (h : reElement c iPrev p = some (.ok p')) :
    Grows s p p' := by
  unfold reElement at h
  by_cases hdot : c = '.'.toNat
  · rw [if_pos hdot] at h
    split_ifs at h
    · cases h
      refine (grows_reAppend hs ?_).trans (grows_advance s _)
      trivial
    · cases h
      exact grows_reAppend hs trivial
  rw [if_neg hdot] at h
  by_cases hstar : c = '*'.toNat
  · rw [if_pos hstar] at h
    split at h
    · cases h
    · rename_i i
      obtain ⟨hsi, hi⟩ := hprev i rfl
      cases h
      have hinsert : Grows s p (p.reInsert i .goto ((p.nState : ℤ) - i + 1)).1 := by
        apply grows_reInsert hsi hi
        simp only [Fits]
        omega
      have hlonger := hinsert.follows.longer
      apply hinsert.trans (grows_reAppend (hs.trans hlonger) _)
      simp only [Fits]
      omega
  rw [if_neg hstar] at h
  by_cases hplus : c = '+'.toNat
  · rw [if_pos hplus] at h
    split at h
    · cases h
    · rename_i i
      obtain ⟨hsi, hi⟩ := hprev i rfl
      cases h
      apply grows_reAppend hs
      simp only [Fits]
      omega
  rw [if_neg hplus] at h
  by_cases hopt : c = '?'.toNat
  · rw [if_pos hopt] at h
    split at h
    · cases h
    · rename_i i
      obtain ⟨hsi, hi⟩ := hprev i rfl
      cases h
      apply grows_reInsert hsi hi
      simp only [Fits]
      omega
  rw [if_neg hopt] at h
  by_cases hend : c = '$'.toNat
  · rw [if_pos hend] at h
    cases h
    exact grows_reAppend hs trivial
  rw [if_neg hend] at h
  by_cases hstart : c = '^'.toNat
  · rw [if_pos hstart] at h
    cases h
    exact grows_reAppend hs trivial
  rw [if_neg hstart] at h
  by_cases hbrace : c = '\x7b'.toNat
  · rw [if_pos hbrace] at h
    exact grows_reRepeat hprev (Option.some.inj h)
  rw [if_neg hbrace] at h
  by_cases hclass : c = '['.toNat
  · rw [if_pos hclass] at h
    exact grows_reClass hs h
  rw [if_neg hclass] at h
  by_cases hescape : c = '\\'.toNat
  · rw [if_pos hescape] at h
    split at h
    · rename_i op hop
      cases h
      refine (grows_advance s p).trans (grows_reAppend hs ?_)
      unfold specialOp at hop
      split_ifs at hop <;> cases hop <;> trivial
    · cases h
      have hesc := grows_reEscChar s p
      refine hesc.trans (grows_reAppend (hs.trans hesc.follows.longer) ?_)
      trivial
  rw [if_neg hescape] at h
  cases h
  exact grows_reAppend hs trivial

/-- The code after a fork in front of it and a jump behind it. -/
def alternativeOps (p : ReCompiled) (iStart : ℕ) : List Instr :=
  p.ops.take iStart ++ (.fork, (p.nState : ℤ) + 2 - iStart) :: p.ops.drop iStart

theorem length_alternativeOps {iStart : ℕ} (hi : iStart ≤ p.nState) :
    (alternativeOps p iStart).length = p.nState + 1 := by
  unfold nState at hi ⊢
  simp only [alternativeOps, List.length_append, List.length_take, List.length_cons,
    List.length_drop]
  omega

theorem alternative_ops {iStart : ℕ} (hi : iStart ≤ p.nState) {q : ReCompiled} {iGoto : ℕ}
    (hq : (p.reInsert iStart .fork ((p.nState : ℤ) + 2 - iStart)).1.reAppend .goto 0 = (q, iGoto))
    (hz : q.zErr = none) :
    iGoto = p.nState + 1 ∧ q.ops = alternativeOps p iStart ++ [(.goto, 0)] := by
  obtain hfail | ⟨N', hgoto⟩ := reAppend_cases
    (p.reInsert iStart .fork ((p.nState : ℤ) + 2 - iStart)).1 .goto 0
  · rw [hq] at hfail
    cases hfail
    cases hz
  rw [hq] at hgoto
  cases hgoto
  obtain hfail | ⟨N, hfork⟩ := reInsert_cases p iStart .fork ((p.nState : ℤ) + 2 - iStart)
  · dsimp only at hz
    rw [hfail] at hz
    cases hz
  · rw [hfork]
    exact ⟨length_alternativeOps hi, rfl⟩

/-- One round of the loop over alternatives: the code so far becomes one side of a fork, and
a jump over the other side follows it. -/
theorem grows_alternative {iStart : ℕ} (hs : s ≤ iStart) (hi : iStart ≤ p.nState)
    {q : ReCompiled} {iGoto : ℕ}
    (hq : (p.reInsert iStart .fork ((p.nState : ℤ) + 2 - iStart)).1.reAppend .goto 0 = (q, iGoto))
    (hrest : ∀ s' ≤ q.nState, Grows s' q p') :
    Grows s p (p'.setArg iGoto ((p'.nState : ℤ) - iGoto)) := by
  have hfollows : Follows p q := by
    have := (follows_reInsert (p := p) iStart .fork ((p.nState : ℤ) + 2 - iStart)).trans
      (follows_reAppend .goto 0)
    rwa [hq] at this
  by_cases hz : q.zErr = none
  · obtain ⟨rfl, hops⟩ := alternative_ops hi hq hz
    have hlen := length_alternativeOps hi
    have hq' : q.nState = p.nState + 1 + 1 := by
      rw [nState, hops, List.length_append, hlen]
      rfl
    have hlonger := (hrest 0 (Nat.zero_le _)).follows.longer
    apply grows_setArg (t := p.nState + 2) (by omega) hfollows hq' (hrest _ hq'.ge)
    · intro b hb
      have hbi : b ≤ iStart := hb.trans hs
      rw [hops]
      constructor
      · have hi' : iStart ≤ p.ops.length := hi
        rw [alternativeOps, List.append_assoc, List.take_append_of_le_length
          (by rw [List.length_take]; omega), List.take_take, Nat.min_eq_left hbi]
      · intro hc
        rw [List.take_append_of_le_length hlen.ge, List.take_of_length_le hlen.le]
        refine closedTo_insert hc hbi hi (u := p.nState + 2) ?_ ?_
        · exact Nat.le_succ _
        · simp only [Fits]
          omega
    · intro _
      omega
    · intro b _ o hget
      rw [hops, List.getElem?_append_right hlen.le, hlen, Nat.sub_self, List.getElem?_cons_zero,
        Option.some.injEq] at hget
      subst hget
      simp only [Fits]
      omega
  · have hrest' := (hrest 0 (Nat.zero_le _)).follows
    exact grows_of_zErr ((hfollows.trans hrest').trans (follows_setArg _ _))
      fun h => hz (hrest'.zErr h)

/-- The three parts of the compiler, by the steps they may take. -/
theorem grows_subcompile (fuel : ℕ) :
    (∀ s p p', s ≤ p.nState → reSubcompileRe fuel p = some (.ok p') → Grows s p p') ∧
    (∀ s iStart p p', s ≤ iStart → iStart ≤ p.nState →
      reAlternatives fuel iStart p = some (.ok p') → Grows s p p') ∧
    ∀ s iPrev p p', s ≤ p.nState → (∀ i ∈ iPrev, s ≤ i ∧ i ≤ p.nState) →
      reElements fuel iPrev p = some (.ok p') → Grows s p p' := by
  induction fuel with
  | zero =>
    refine ⟨?_, ?_, ?_⟩
    · intro s p p' _ h
      cases h
    · intro s iStart p p' _ _ h
      cases h
    · intro s iPrev p p' _ _ h
      cases h
  | succ fuel ih =>
    obtain ⟨ihRe, ihAlt, ihElems⟩ := ih
    refine ⟨?_, ?_, ?_⟩
    · intro s p p' hs h
      unfold reSubcompileRe at h
      obtain ⟨q, hq, h⟩ := andThen_eq h
      have hstring := ihElems s none p q hs (by simp) hq
      exact hstring.trans (ihAlt s _ q p' hs hstring.follows.longer h)
    · intro s iStart p p' hs hi h
      unfold reAlternatives at h
      dsimp only at h
      split_ifs at h
      · obtain ⟨q, hq, h⟩ := andThen_eq h
        have hround := grows_alternative hs hi rfl fun s' hs' =>
          (grows_advance s' _).trans (ihElems s' none _ q hs' (by simp) hq)
        exact hround.trans (ihAlt s iStart _ p' hs (hi.trans hround.follows.longer) h)
      · cases h
        exact grows_refl s p
    · intro s iPrev p p' hs hprev h
      unfold reElements at h
      dsimp only at h
      have hnext := grows_xNextChar s p
      have hlonger := hnext.follows.longer
      split_ifs at h
      · cases h
        exact hnext
      · cases h
        exact grows_refl s p
      · obtain ⟨q, hq, h⟩ := andThen_eq h
        split at h
        · cases h
        have hgroup := (hnext.trans (ihRe s _ q (hs.trans hlonger) hq)).trans (grows_advance s q)
        refine hgroup.trans (ihElems s _ _ p' (hs.trans hgroup.follows.longer) ?_ h)
        rintro i ⟨⟩
        exact ⟨hs, hgroup.follows.longer⟩
      · obtain ⟨q, hq, h⟩ := andThen_eq h
        have helement := hnext.trans (grows_reElement (hs.trans hlonger)
          (fun i hi => ⟨(hprev i hi).1, (hprev i hi).2.trans hlonger⟩) hq)
        refine helement.trans (ihElems s _ q p' (hs.trans helement.follows.longer) ?_ h)
        rintro i ⟨⟩
        exact ⟨hs, helement.follows.longer⟩

end Grows

section Ends

variable {p : ReCompiled}

theorem andThen_ne_none {r : ReResult} {f : ReCompiled → ReResult} (hr : r ≠ none)
    (hf : ∀ q, r = some (.ok q) → f q ≠ none) : r.andThen f ≠ none := by
  obtain _ | _ | q := r
  · exact absurd rfl hr
  · simp [ReResult.andThen]
  · exact hf q rfl

theorem shorter_xNextChar (h : p.xNextChar.1 ≠ 0) :
    p.xNextChar.2.sIn.length < p.sIn.length := by
  have hlen : p.xNextChar.2.sIn.length ≤ p.sIn.length - 1 := by
    unfold xNextChar reNextCharNocase
    cases p.noCase <;> exact shorter_reNextChar p.sIn
  have hne : p.sIn ≠ [] := by
    intro hnil
    apply h
    unfold xNextChar reNextCharNocase
    rw [hnil]
    cases p.noCase <;> rfl
  have hpos := List.length_pos_iff.mpr hne
  omega

theorem shorter_classMember (h : p.xNextChar.1 ≠ 0) :
    (classMember p).2.sIn.length < p.sIn.length := by
  have hchar : (classChar p).2.sIn.length < p.sIn.length := by
    have hnext := shorter_xNextChar h
    unfold classChar
    dsimp only
    split_ifs
    · exact lt_of_le_of_lt (follows_reEscChar _).shorter hnext
    · exact hnext
  unfold classMember
  dsimp only
  split_ifs
  · have hfirst := (follows_reAppend (p := (classChar p).2) .ccRange (classChar p).1).trans
      follows_advance
    have hsecond := hfirst.trans (grows_classChar 0 _).follows
    exact lt_of_le_of_lt (hsecond.trans (follows_reAppend _ _)).shorter hchar
  · exact lt_of_le_of_lt (follows_reAppend _ _).shorter hchar

theorem classLoop_ne_none {fuel : ℕ} (hfuel : p.sIn.length < fuel) : classLoop fuel p ≠ none := by
  induction fuel generalizing p with
  | zero => omega
  | succ fuel ih =>
    unfold classLoop
    dsimp only
    split_ifs with h
    any_goals exact Option.some_ne_none _
    have := shorter_classMember h
    exact ih (by omega)

theorem reElement_ne_none (c : ℕ) (iPrev : Option ℕ) (p : ReCompiled) :
    reElement c iPrev p ≠ none := by
  have hclass : reClass p ≠ none := by
    unfold reClass
    dsimp only
    apply andThen_ne_none (classLoop_ne_none (Nat.lt_succ_self _))
    intro q _
    exact Option.some_ne_none _
  have hite {α : Type} {b : Prop} [Decidable b] {x y : Option α} (hx : x ≠ none)
      (hy : y ≠ none) : (if b then x else y) ≠ none := by
    split <;> assumption
  unfold reElement
  repeat' apply hite
  all_goals first
    | exact Option.some_ne_none _
    | exact hclass
    | split <;> exact Option.some_ne_none _

/-- The recursion of the compiler ends: each part needs three steps for a byte. -/
theorem subcompile_ne_none (fuel : ℕ) :
    (∀ p, 3 * p.sIn.length + 2 ≤ fuel → reSubcompileRe fuel p ≠ none) ∧
    (∀ iStart p, 3 * p.sIn.length + 1 ≤ fuel → reAlternatives fuel iStart p ≠ none) ∧
    ∀ iPrev p, (∀ i ∈ iPrev, i ≤ p.nState) → 3 * p.sIn.length + 1 ≤ fuel →
      reElements fuel iPrev p ≠ none := by
  induction fuel with
  | zero =>
    refine ⟨?_, ?_, ?_⟩
    · intro p h
      omega
    · intro _ p h
      omega
    · intro _ p _ h
      omega
  | succ fuel ih =>
    obtain ⟨ihRe, ihAlt, ihElems⟩ := ih
    obtain ⟨hRe, -, hElems⟩ := grows_subcompile fuel
    refine ⟨?_, ?_, ?_⟩
    · intro p hfuel
      unfold reSubcompileRe
      apply andThen_ne_none (ihElems _ _ (by simp) (by omega))
      intro q hq
      have hshorter := (hElems 0 _ _ _ (Nat.zero_le _) (by simp) hq).follows.shorter
      exact ihAlt _ _ (by omega)
    · intro iStart p hfuel
      unfold reAlternatives
      dsimp only
      split_ifs with hbar
      · have hpos : 0 < p.sIn.length := by
          rw [List.length_pos_iff]
          intro hnil
          rw [rePeek, hnil] at hbar
          revert hbar
          decide
        generalize hq : (p.reInsert iStart .fork ((p.nState : ℤ) + 2 - iStart)).1.reAppend
          .goto 0 = q
        have hbar' : q.1.advance.sIn.length < p.sIn.length := by
          have hsIn : q.1.sIn = p.sIn := by
            rw [← hq]
            obtain h | ⟨N, h⟩ := reAppend_cases
              (p.reInsert iStart .fork ((p.nState : ℤ) + 2 - iStart)).1 .goto 0 <;>
              obtain h' | ⟨N', h'⟩ := reInsert_cases p iStart .fork ((p.nState : ℤ) + 2 - iStart) <;>
              rw [h, h'] <;> rfl
          rw [advance, hsIn, List.length_tail]
          omega
        apply andThen_ne_none (ihElems _ _ (by simp) (by omega))
        intro q' hq'
        have hshorter := (hElems 0 _ _ _ (Nat.zero_le _) (by simp) hq').follows.shorter
        exact ihAlt _ _ (by simp only [setArg]; omega)
      · exact Option.some_ne_none _
    · intro iPrev p hprev hfuel
      unfold reElements
      dsimp only
      split_ifs with hc hend hgroup
      · exact Option.some_ne_none _
      · exact Option.some_ne_none _
      · have hnext := shorter_xNextChar hc
        apply andThen_ne_none (ihRe _ (by omega))
        intro q hq
        split_ifs
        · exact Option.some_ne_none _
        · have hgroup := ((grows_xNextChar 0 p).trans
            (hRe 0 _ _ (Nat.zero_le _) hq)).trans (grows_advance 0 q)
          have hshorter := (hRe 0 _ _ (Nat.zero_le _) hq).follows.shorter
          have hadvance : q.advance.sIn.length ≤ q.sIn.length := follows_advance.shorter
          refine ihElems _ _ ?_ (by omega)
          rintro i ⟨⟩
          exact hgroup.follows.longer
      · have hnext := shorter_xNextChar hc
        apply andThen_ne_none (reElement_ne_none _ _ _)
        intro q hq
        have helement := grows_reElement (Nat.zero_le _)
          (fun i hi => ⟨Nat.zero_le _, (hprev i hi).trans (follows_xNextChar p).longer⟩) hq
        have hshorter := helement.follows.shorter
        refine ihElems _ _ ?_ (by omega)
        rintro i ⟨⟩
        exact ((follows_xNextChar p).trans helement.follows).longer

/-- A program that runs to an end: its jumps stay in it, and it ends in `ACCEPT`. -/
def WellFormed (ops : List Instr) : Prop :=
  ∃ code arg, ops = code ++ [(.accept, arg)] ∧ Closed 0 code

theorem reCompile_of_lt {zIn : Bytes} {mxRe : ℕ} {noCase : Bool} (h : ¬mxRe < 30) :
    reCompile zIn mxRe noCase = (reSubcompileRe (enough (zIn.takeWhile (· ≠ 0)))
      (started ⟨[], none, [], noCase, [], 30, mxRe⟩ (zIn.takeWhile (· ≠ 0)))).andThen finished := by
  simp [reCompile, reResize, h]

theorem reCompile_of_ge {zIn : Bytes} {mxRe : ℕ} {noCase : Bool} (h : mxRe < 30) :
    reCompile zIn mxRe noCase = some (.error "REGEXP pattern too big") := by
  simp [reCompile, reResize, h]

theorem length_started (p : ReCompiled) (zIn : Bytes) :
    (started p zIn).sIn.length ≤ zIn.length := by
  unfold started
  split_ifs
  · rw [List.length_tail]
    omega
  · exact le_rfl

/-- Compiling an expression always comes to an end. -/
theorem reCompile_ne_none (zIn : Bytes) (mxRe : ℕ) (noCase : Bool) :
    reCompile zIn mxRe noCase ≠ none := by
  by_cases h : mxRe < 30
  · rw [reCompile_of_ge h]
    exact Option.some_ne_none _
  · rw [reCompile_of_lt h]
    apply andThen_ne_none
    · have hlen := length_started ⟨[], none, [], noCase, [], 30, mxRe⟩ (zIn.takeWhile (· ≠ 0))
      exact (subcompile_ne_none _).1 _ (by unfold enough; omega)
    · intro q _
      unfold finished
      dsimp only
      split
      · exact Option.some_ne_none _
      · split <;> exact Option.some_ne_none _

/-- What `re_compile` returns: a well-formed program, and the bytes to look ahead for where
the program may start anywhere. -/
structure Compiled (p : ReCompiled) : Prop where
  wellFormed : WellFormed p.ops
  zInit : p.zInit = [] ∨ (∃ arg ops, p.ops = (.anystar, arg) :: ops ∧
    p.zInit = dropNul (initBytes [] ops)) ∧ p.noCase = false

theorem closed_started {zIn : Bytes} {mxRe : ℕ} {noCase : Bool} :
    Closed 0 (started ⟨[], none, [], noCase, [], 30, mxRe⟩ zIn).ops := by
  unfold started
  split_ifs
  · exact closedTo_of_length_le le_rfl
  · intro i o _ hget
    have hops : (reAppend ⟨[], none, [], noCase, [], 30, mxRe⟩ .anystar 0).1.ops =
        [(.anystar, 0)] := rfl
    dsimp only at hget
    rw [hops] at hget
    have ho := List.mem_of_getElem? hget
    rw [List.mem_singleton] at ho
    subst ho
    trivial

theorem compiled_of_finished {p q : ReCompiled} (hclosed : p.zErr = none → Closed 0 p.ops)
    (hzInit : p.zInit = []) (h : finished p = some (.ok q)) :
    Compiled q ∧ q.noCase = p.noCase := by
  unfold finished at h
  dsimp only at h
  split at h
  · cases h
  split at h
  · cases h
  rename_i hz
  cases h
  obtain hfail | ⟨N, hok⟩ := reAppend_cases p .accept 0
  · rw [hfail] at hz
    split_ifs at hz <;> cases hz
  rw [hok] at hz ⊢
  have hzp : p.zErr = none := by
    split_ifs at hz <;> exact hz
  have hwell : WellFormed (p.ops ++ [(ReOp.accept, 0)]) := ⟨p.ops, 0, rfl, hclosed hzp⟩
  split_ifs with hinit
  · refine ⟨⟨hwell, .inr ⟨?_, ?_⟩⟩, rfl⟩
    · obtain ⟨⟨op, arg⟩, hhead, hop⟩ := Option.map_eq_some_iff.mp hinit.1
      obtain ⟨ops, hops⟩ := List.head?_eq_some_iff.mp hhead
      dsimp only at hop
      subst hop
      refine ⟨arg, ops, hops, ?_⟩
      dsimp only at hops ⊢
      rw [hops, List.tail_cons]
    · simpa using hinit.2
  · exact ⟨⟨hwell, .inl hzInit⟩, rfl⟩

/-- Every expression that compiles, whatever its text is, compiles to a program that stays
in itself. -/
theorem compiled_of_reCompile {zIn : Bytes} {mxRe : ℕ} {noCase : Bool} {p : ReCompiled}
    (h : reCompile zIn mxRe noCase = some (.ok p)) : Compiled p ∧ p.noCase = noCase := by
  by_cases hmx : mxRe < 30
  · rw [reCompile_of_ge hmx] at h
    cases h
  rw [reCompile_of_lt hmx] at h
  obtain ⟨q, hq, hfinished⟩ := andThen_eq h
  have hgrows := (grows_subcompile _).1 0 _ q (Nat.zero_le _) hq
  have hstart : (started ⟨[], none, [], noCase, [], 30, mxRe⟩ (zIn.takeWhile (· ≠ 0))).noCase =
      noCase ∧
      (started ⟨[], none, [], noCase, [], 30, mxRe⟩ (zIn.takeWhile (· ≠ 0))).zInit = [] := by
    unfold started
    split_ifs <;> exact ⟨rfl, rfl⟩
  have hcompiled := compiled_of_finished
    (fun hz => (hgrows.keeps hz 0 le_rfl).2 closed_started)
    (hgrows.follows.zInit.trans hstart.2) hfinished
  exact ⟨hcompiled.1, hcompiled.2.trans (hgrows.follows.noCase.trans hstart.1)⟩

end Ends

end RSQLCipher.RegexpProgram
