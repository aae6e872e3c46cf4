import RSQLCipher.RegexpProgram

namespace RSQLCipher.RegexpLimit

open RSQLCipher.Values
open RSQLCipher.RegexpCompile
open RSQLCipher.RegexpCompile.ReCompiled
open RSQLCipher.RegexpProgram

/-- What an expression that exceeds the complexity limit is refused with. -/
def tooBig : String := "REGEXP pattern too big"

/-- One text compiled under two limits. Both read it alike to its end, and have the same code
until the smaller limit is exceeded. -/
structure Shadows (p q : ReCompiled) : Prop where
  sIn : q.sIn = p.sIn
  noCase : q.noCase = p.noCase
  zInit : q.zInit = p.zInit
  limit : p.mxAlloc ≤ q.mxAlloc
  ops : p.zErr = none → q.ops = p.ops
  nAlloc : p.zErr = none → q.nAlloc = p.nAlloc
  zErr : p.zErr = none → q.zErr = none
  failed : p.zErr ≠ none → p.zErr = some tooBig ∨ q.zErr ≠ none

/-- What a part of the compiler returns under the two limits. Once an error has been noted,
as in `z`, it stays. -/
inductive Shadowed (z : Option String) : ReResult → ReResult → Prop where
  | ok {p q : ReCompiled} (h : Shadows p q) (kept : p.zErr = none → z = none) :
    Shadowed z (some (.ok p)) (some (.ok q))
  | error (e e' : String) : Shadowed z (some (.error e)) (some (.error e'))
  | tooBig (r : ReResult) : Shadowed z (some (.error RegexpLimit.tooBig)) r
  | none : Shadowed z none none

section Results

variable {z : Option String} {a b : ReResult} {f g : ReCompiled → ReResult}

theorem shadowed_kept {z' : Option String} (h : Shadowed z a b) (hz : z = none → z' = none) :
    Shadowed z' a b := by
  cases h with
  | ok h kept => exact .ok h fun h' => hz (kept h')
  | error e e' => exact .error e e'
  | tooBig r => exact .tooBig _
  | none => exact .none

theorem shadowed_andThen (h : Shadowed z a b)
    (hnext : ∀ p q, Shadows p q → (p.zErr = none → z = none) → Shadowed p.zErr (f p) (g q)) :
    Shadowed z (a.andThen f) (b.andThen g) := by
  cases h with
  | @ok p q h kept => exact shadowed_kept (hnext p q h kept) kept
  | error e e' => exact .error e e'
  | tooBig r => exact .tooBig _
  | none => exact .none

theorem shadowed_ite {c : Prop} [Decidable c] {a' b' : ReResult} (hthen : Shadowed z a b)
    (helse : Shadowed z a' b') : Shadowed z (if c then a else a') (if c then b else b') := by
  split_ifs
  · exact hthen
  · exact helse

end Results

section Steps

variable {p q : ReCompiled}

theorem Shadows.nState (h : Shadows p q) (hz : p.zErr = none) : q.nState = p.nState := by
  rw [ReCompiled.nState, h.ops hz]
  rfl

theorem Shadows.rePeek (h : Shadows p q) : q.rePeek = p.rePeek := by
  rw [ReCompiled.rePeek, h.sIn]
  rfl

theorem shadows_sIn (h : Shadows p q) (z : Bytes) :
    Shadows { p with sIn := z } { q with sIn := z } :=
  ⟨rfl, h.noCase, h.zInit, h.limit, h.ops, h.nAlloc, h.zErr, h.failed⟩

theorem shadows_advance (h : Shadows p q) : Shadows p.advance q.advance := by
  rw [advance, advance, h.sIn]
  exact shadows_sIn h _

theorem shadows_fail (h : Shadows p q) (zErr : String) : Shadows (p.fail zErr) (q.fail zErr) := by
  refine ⟨h.sIn, h.noCase, h.zInit, h.limit, ?_, ?_, ?_, ?_⟩
  · intro hz
    cases hz
  · intro hz
    cases hz
  · intro hz
    cases hz
  · intro _
    exact .inr (Option.some_ne_none zErr)

theorem shadows_ops (h : Shadows p q) {ops ops' : List Instr}
    (hops : p.zErr = none → ops' = ops) :
    Shadows { p with ops := ops } { q with ops := ops' } :=
  ⟨h.sIn, h.noCase, h.zInit, h.limit, hops, h.nAlloc, h.zErr, h.failed⟩

theorem shadows_setArg (h : Shadows p q) {i j : ℕ} {arg arg' : ℤ}
    (hsame : p.zErr = none → j = i ∧ arg' = arg) : Shadows (p.setArg i arg) (q.setArg j arg') := by
  apply shadows_ops h
  intro hz
  obtain ⟨rfl, rfl⟩ := hsame hz
  rw [h.ops hz]

/-- The code gets longer, with more space for it where it is full. -/
def grown (p : ReCompiled) (full : Bool) (N : ℕ) (ops : List Instr) : ReCompiled :=
  if full then
    if N > p.mxAlloc then p.fail tooBig else { p with nAlloc := N, ops := ops }
  else { p with ops := ops }

theorem reInsert_eq_grown (p : ReCompiled) (iBefore : ℕ) (op : ReOp) (arg : ℤ) :
    (p.reInsert iBefore op arg).1 = grown p (decide (p.nAlloc ≤ p.nState)) (p.nAlloc * 2)
      (p.ops.take iBefore ++ (op, arg) :: p.ops.drop iBefore) := by
  unfold reInsert reResize grown
  by_cases hfull : p.nAlloc ≤ p.nState
  · by_cases hlimit : p.nAlloc * 2 > p.mxAlloc
    · simp [hfull, hlimit, fail, tooBig]
    · simp [hfull, hlimit]
  · simp [hfull]

theorem reCopy_eq_grown (p : ReCompiled) (iStart N : ℕ) :
    p.reCopy iStart N = grown p (decide (p.nAlloc ≤ p.nState + N)) (p.nAlloc * 2 + N)
      (p.ops ++ (p.ops.drop iStart).take N) := by
  unfold reCopy reResize grown
  by_cases hfull : p.nAlloc ≤ p.nState + N
  · by_cases hlimit : p.nAlloc * 2 + N > p.mxAlloc
    · simp [hfull, hlimit, fail, tooBig]
    · simp [hfull, hlimit]
  · simp [hfull]

theorem grown_cases (p : ReCompiled) (full : Bool) (N : ℕ) (ops : List Instr) :
    grown p full N ops = p.fail tooBig ∨
      ∃ M, grown p full N ops = { p with nAlloc := M, ops := ops } := by
  unfold grown
  split_ifs
  · exact .inl rfl
  · exact .inr ⟨N, rfl⟩
  · exact .inr ⟨p.nAlloc, rfl⟩

theorem shadows_grown (h : Shadows p q) {full full' : Bool} {N N' : ℕ} {ops ops' : List Instr}
    (hsame : p.zErr = none → full' = full ∧ N' = N ∧ ops' = ops) :
    Shadows (grown p full N ops) (grown q full' N' ops') := by
  by_cases hz : p.zErr = none
  · obtain ⟨rfl, rfl, rfl⟩ := hsame hz
    have hlimit := h.limit
    unfold grown
    split_ifs with hfull hp hq hq
    · exact shadows_fail h tooBig
    · refine ⟨h.sIn, h.noCase, h.zInit, h.limit, ?_, ?_, ?_, ?_⟩
      · intro hz'
        cases hz'
      · intro hz'
        cases hz'
      · intro hz'
        cases hz'
      · intro _
        exact .inl rfl
    · omega
    · exact ⟨h.sIn, h.noCase, h.zInit, h.limit, fun _ => rfl, fun _ => rfl, h.zErr, h.failed⟩
    · exact shadows_ops h fun _ => rfl
  · -- an error that has been noted stays, whatever happens to the code
    have hfailed := h.failed hz
    obtain hp | ⟨M, hp⟩ := grown_cases p full N ops <;>
      obtain hq | ⟨M', hq⟩ := grown_cases q full' N' ops' <;> rw [hp, hq] <;>
      refine ⟨h.sIn, h.noCase, h.zInit, h.limit, ?_, ?_, ?_, ?_⟩ <;> intro hz'
    all_goals first
      | exact absurd hz' hz
      | cases hz'
      | exact .inl rfl
      | exact hfailed
      | exact .inr (Option.some_ne_none tooBig)

theorem shadows_reInsert (h : Shadows p q) {i j : ℕ} {arg arg' : ℤ} (op : ReOp)
    (hsame : p.zErr = none → j = i ∧ arg' = arg) :
    Shadows (p.reInsert i op arg).1 (q.reInsert j op arg').1 := by
  rw [reInsert_eq_grown, reInsert_eq_grown]
  apply shadows_grown h
  intro hz
  obtain ⟨rfl, rfl⟩ := hsame hz
  rw [h.nAlloc hz, h.nState hz, h.ops hz]
  exact ⟨rfl, rfl, rfl⟩

theorem shadows_reAppend (h : Shadows p q) {arg arg' : ℤ} (op : ReOp)
    (hsame : p.zErr = none → arg' = arg) :
    Shadows (p.reAppend op arg).1 (q.reAppend op arg').1 :=
  shadows_reInsert h op fun hz => ⟨h.nState hz, hsame hz⟩

/-- An instruction that has been added lies at one place. -/
theorem shadows_place (h : Shadows p q) {op : ReOp} {arg : ℤ}
    (hz : (p.reAppend op arg).1.zErr = none) :
    (q.reAppend op arg).2 = (p.reAppend op arg).2 := by
  have hnone := (follows_reAppend op arg).zErr hz
  have hadd : (q.reAppend op arg).1.zErr = none :=
    (shadows_reAppend h op fun _ => rfl).zErr hz
  obtain hp | ⟨N, hp⟩ := reAppend_cases p op arg
  · rw [hp] at hz
    cases hz
  obtain hq | ⟨M, hq⟩ := reAppend_cases q op arg
  · rw [hq] at hadd
    cases hadd
  rw [hp, hq]
  exact h.nState hnone

theorem shadows_reCopy (h : Shadows p q) {i j N N' : ℕ}
    (hsame : p.zErr = none → j = i ∧ N' = N) : Shadows (p.reCopy i N) (q.reCopy j N') := by
  rw [reCopy_eq_grown, reCopy_eq_grown]
  apply shadows_grown h
  intro hz
  obtain ⟨rfl, rfl⟩ := hsame hz
  rw [h.nAlloc hz, h.nState hz, h.ops hz]
  exact ⟨rfl, rfl, rfl⟩

theorem shadows_xNextChar (h : Shadows p q) :
    q.xNextChar.1 = p.xNextChar.1 ∧ Shadows p.xNextChar.2 q.xNextChar.2 := by
  have hread : (if q.noCase then reNextCharNocase q.sIn else reNextChar q.sIn) =
      if p.noCase then reNextCharNocase p.sIn else reNextChar p.sIn := by
    rw [h.sIn, h.noCase]
  unfold xNextChar
  rw [hread]
  exact ⟨rfl, shadows_sIn h _⟩

theorem shadows_reEscChar (h : Shadows p q) :
    (reEscChar q).1 = (reEscChar p).1 ∧ Shadows (reEscChar p).2 (reEscChar q).2 := by
  unfold reEscChar
  rw [h.sIn]
  cases p.sIn with
  | nil => exact ⟨rfl, h⟩
  | cons c z =>
    dsimp only
    cases if c = byte 'u' then reHexRun 4 z else none with
    | some v => exact ⟨rfl, shadows_sIn h _⟩
    | none =>
      cases if c = byte 'x' then reHexRun 2 z else none with
      | some v => exact ⟨rfl, shadows_sIn h _⟩
      | none =>
        dsimp only
        split_ifs
        · exact ⟨rfl, shadows_advance h⟩
        · exact ⟨rfl, shadows_advance h⟩
        · exact ⟨rfl, shadows_fail h _⟩

end Steps

section Classes

variable {p q : ReCompiled}

theorem shadows_classChar (h : Shadows p q) :
    (classChar q).1 = (classChar p).1 ∧ Shadows (classChar p).2 (classChar q).2 := by
  obtain ⟨hc, hnext⟩ := shadows_xNextChar h
  unfold classChar
  dsimp only
  rw [hc]
  split_ifs
  · exact shadows_reEscChar hnext
  · exact ⟨rfl, hnext⟩

theorem shadows_classMember (h : Shadows p q) :
    (classMember q).1 = (classMember p).1 ∧ Shadows (classMember p).2 (classMember q).2 := by
  obtain ⟨hc, hchar⟩ := shadows_classChar h
  have hfirst := shadows_advance (shadows_reAppend hchar .ccRange fun _ => hc)
  obtain ⟨hc', hchar'⟩ := shadows_classChar hfirst
  unfold classMember
  dsimp only
  rw [hchar.rePeek]
  split_ifs
  · exact ⟨hc', shadows_reAppend hchar' .ccRange fun _ => hc'⟩
  · exact ⟨hc, shadows_reAppend hchar .ccValue fun _ => hc⟩

theorem shadowed_classLoop (h : Shadows p q) (fuel : ℕ) :
    Shadowed p.zErr (classLoop fuel p) (classLoop fuel q) := by
  induction fuel generalizing p q with
  | zero => exact .none
  | succ fuel ih =>
    obtain ⟨hc, hnext⟩ := shadows_xNextChar h
    obtain ⟨hlast, hmember⟩ := shadows_classMember h
    have hkept := (grows_classMember (Nat.zero_le p.nState)).follows.zErr
    unfold classLoop
    dsimp only
    rw [hc, hnext.rePeek, hmember.rePeek, hlast]
    split_ifs
    · exact .error _ _
    · exact .error _ _
    · exact .error _ _
    · exact .ok (shadows_advance hmember) hkept
    · exact shadowed_kept (ih hmember) hkept

theorem shadowed_reClass (h : Shadows p q) : Shadowed p.zErr (reClass p) (reClass q) := by
  have hopen : Shadows
      (if p.rePeek = byte '^' then (p.reAppend .ccExc 0).1.advance else (p.reAppend .ccInc 0).1)
      (if p.rePeek = byte '^' then (q.reAppend .ccExc 0).1.advance
        else (q.reAppend .ccInc 0).1) := by
    split_ifs
    · exact shadows_advance (shadows_reAppend h .ccExc fun _ => rfl)
    · exact shadows_reAppend h .ccInc fun _ => rfl
  have hkept : (if p.rePeek = byte '^' then (p.reAppend .ccExc 0).1.advance
      else (p.reAppend .ccInc 0).1).zErr = none → p.zErr = none := by
    split_ifs
    · exact (follows_reAppend .ccExc 0).zErr
    · exact (follows_reAppend .ccInc 0).zErr
  unfold reClass
  dsimp only
  rw [h.rePeek, hopen.sIn]
  apply shadowed_andThen (shadowed_kept (shadowed_classLoop hopen _) hkept)
  intro p' q' h' hz
  -- the opcode of the class is told how long it is
  have hops (r : ReCompiled) (i : ℕ) :
      (if r.nState > i then r.setArg i ((r.nState : ℤ) - i) else r) = { r with ops :=
        if r.nState > i then (r.setArg i ((r.nState : ℤ) - i)).ops else r.ops } := by
    split_ifs <;> rfl
  rw [hops, hops]
  refine .ok (shadows_ops h' fun hz' => ?_) id
  simp only [setArg]
  rw [h'.nState hz', h'.ops hz', h.nState (hz hz')]

end Classes

section Repetitions

variable {p q : ReCompiled} {i j N N' : ℕ}

theorem shadows_optionalCopies (h : Shadows p q) (hsame : p.zErr = none → j = i ∧ N' = N)
    (k : ℕ) : Shadows (optionalCopies i N k p) (optionalCopies j N' k q) := by
  induction k generalizing p q with
  | zero => exact h
  | succ k ih =>
    have hfork : Shadows (p.reAppend .fork ((N : ℤ) + 1)).1 (q.reAppend .fork ((N' : ℤ) + 1)).1 :=
      shadows_reAppend h .fork fun hz => by rw [(hsame hz).2]
    have hkept := (follows_reAppend (p := p) .fork ((N : ℤ) + 1)).zErr
    have hkept' := (follows_reCopy (p := (p.reAppend .fork ((N : ℤ) + 1)).1) i N).zErr
    apply ih (shadows_reCopy hfork fun hz => hsame (hkept hz))
    exact fun hz => hsame (hkept (hkept' hz))

theorem shadows_copies (h : Shadows p q) (hsame : p.zErr = none → j = i ∧ N' = N) (k : ℕ) :
    Shadows (copies i N k p) (copies j N' k q) := by
  induction k generalizing p q with
  | zero => exact h
  | succ k ih => exact ih (shadows_reCopy h hsame) fun hz => hsame ((follows_reCopy i N).zErr hz)

theorem shadowed_repeatCode (h : Shadows p q) (hsame : p.zErr = none → j = i) (m n : ℕ) :
    Shadowed p.zErr (some (repeatCode p i m n)) (some (repeatCode q j m n)) := by
  have hsize : p.zErr = none → j = i ∧ q.nState - j = p.nState - i := by
    intro hz
    obtain rfl := hsame hz
    exact ⟨rfl, by rw [h.nState hz]⟩
  unfold repeatCode
  dsimp only
  split_ifs
  · exact .error _ _
  · have hkept := (follows_reInsert (p := p) i .fork ((p.nState - i : ℕ) + 1)).zErr
    have hfork : Shadows (p.reInsert i .fork ((p.nState - i : ℕ) + 1)).1
        (q.reInsert j .fork ((q.nState - j : ℕ) + 1)).1 :=
      shadows_reInsert h .fork fun hz => ⟨hsame hz, by rw [(hsize hz).2]⟩
    refine .ok (shadows_optionalCopies hfork (fun hz => ?_) _)
      fun hz => hkept ((follows_optionalCopies _ _ _ _).zErr hz)
    obtain ⟨hj, hN⟩ := hsize (hkept hz)
    exact ⟨by rw [hj], hN⟩
  all_goals
    have hkept := (follows_copies i (p.nState - i) (m - 1) p).zErr
    have hkept' := (follows_optionalCopies i (p.nState - i) (n - m)
      (copies i (p.nState - i) (m - 1) p)).zErr
    have hcopies := shadows_optionalCopies (shadows_copies h hsize (m - 1))
      (fun hz => hsize (hkept hz)) (n - m)
  · refine .ok (shadows_reAppend hcopies .fork fun hz => ?_)
      fun hz => hkept (hkept' ((follows_reAppend _ _).zErr hz))
    rw [(hsize (hkept (hkept' hz))).2]
  · exact .ok hcopies fun hz => hkept (hkept' hz)

/-- A bound that the smaller limit admits is read alike under the larger one. -/
theorem number_limit {mx mx' : ℕ} (hmx : mx ≤ mx') (m : ℕ) (z : Bytes) :
    number mx m z = none ∨ number mx' m z = number mx m z := by
  induction z generalizing m with
  | nil => exact .inr rfl
  | cons b z ih =>
    unfold number
    dsimp only
    split_ifs with hdigit hbig hbig'
    · exact .inl rfl
    · exact .inl rfl
    · omega
    · exact ih _
    · exact .inr rfl

/-- The operand of a quantifier, which lies at one place as long as the code is one. -/
inductive SameOperand (p : ReCompiled) : Option ℕ → Option ℕ → Prop where
  | none : SameOperand p none none
  | some {i j : ℕ} (h : p.zErr = .none → j = i) : SameOperand p (some i) (some j)

theorem shadowed_reRepeat (h : Shadows p q) {i j : Option ℕ} (hsame : SameOperand p i j) :
    Shadowed p.zErr (some (reRepeat p i)) (some (reRepeat q j)) := by
  cases hsame with
  | none => exact .error _ _
  | some hsame =>
    unfold reRepeat
    dsimp only
    rw [h.sIn]
    obtain hm | hm := number_limit h.limit 0 p.sIn
    · rw [hm]
      exact .tooBig _
    rw [hm]
    cases number p.mxAlloc 0 p.sIn with
    | none => exact .tooBig _
    | some mz =>
      obtain ⟨m, z⟩ := mz
      dsimp only
      have hn : (if z.headD 0 = byte ',' then number p.mxAlloc 0 z.tail else some (m, z)) = none ∨
          (if z.headD 0 = byte ',' then number q.mxAlloc 0 z.tail else some (m, z)) =
            if z.headD 0 = byte ',' then number p.mxAlloc 0 z.tail else some (m, z) := by
        split_ifs
        · exact number_limit h.limit 0 z.tail
        · exact .inr rfl
      obtain hn | hn := hn
      · rw [hn]
        exact .tooBig _
      rw [hn]
      cases if z.headD 0 = byte ',' then number p.mxAlloc 0 z.tail else some (m, z) with
      | none => exact .tooBig _
      | some nz =>
        obtain ⟨n, z'⟩ := nz
        dsimp only
        split_ifs
        · exact .error _ _
        · exact .error _ _
        · exact shadowed_repeatCode (shadows_sIn h z'.tail) hsame m n

end Repetitions

section Compiler

variable {p q : ReCompiled}

/-- A jump over the code from a place on, put in front of it. -/
theorem shadows_over (h : Shadows p q) {i j : ℕ} (hsame : p.zErr = none → j = i) (op : ReOp)
    (arg : ℕ → ℕ → ℤ) : Shadows (p.reInsert i op (arg p.nState i)).1
      (q.reInsert j op (arg q.nState j)).1 := by
  apply shadows_reInsert h
  intro hz
  obtain rfl := hsame hz
  exact ⟨rfl, by rw [h.nState hz]⟩

theorem shadowed_reElement (h : Shadows p q) {i j : Option ℕ} (hsame : SameOperand p i j)
    (c : ℕ) : Shadowed p.zErr (reElement c i p) (reElement c j q) := by
  have hadd (op : ReOp) {arg arg' : ℤ} (harg : p.zErr = none → arg' = arg) :
      Shadowed p.zErr (some (.ok (p.reAppend op arg).1)) (some (.ok (q.reAppend op arg').1)) :=
    .ok (shadows_reAppend h op harg) (follows_reAppend op arg).zErr
  unfold reElement
  rw [h.rePeek]
  apply shadowed_ite
  · apply shadowed_ite
    · exact .ok (shadows_advance (shadows_reAppend h .anystar fun _ => rfl))
        (follows_reAppend .anystar 0).zErr
    · exact hadd .any fun _ => rfl
  apply shadowed_ite
  · cases hsame with
    | none => exact .error _ _
    | @some i j hsame =>
      have hgoto := shadows_over h hsame .goto fun n i => (n : ℤ) - i + 1
      have hkept := (follows_reInsert (p := p) i .goto ((p.nState : ℤ) - i + 1)).zErr
      dsimp only
      refine .ok (shadows_reAppend hgoto .fork fun hz => ?_)
        fun hz => hkept ((follows_reAppend _ _).zErr hz)
      rw [hgoto.nState hz, hsame (hkept hz)]
  apply shadowed_ite
  · cases hsame with
    | none => exact .error _ _
    | some hsame => exact hadd .fork fun hz => by rw [hsame hz, h.nState hz]
  apply shadowed_ite
  · cases hsame with
    | none => exact .error _ _
    | some hsame =>
      have hfork := shadows_over h hsame .fork fun n i => (n : ℤ) - i + 1
      exact .ok hfork (follows_reInsert _ _ _).zErr
  apply shadowed_ite
  · exact hadd .match fun _ => rfl
  apply shadowed_ite
  · exact hadd .atstart fun _ => rfl
  apply shadowed_ite
  · exact shadowed_reRepeat h hsame
  apply shadowed_ite
  · exact shadowed_reClass h
  apply shadowed_ite
  · cases specialOp p.rePeek with
    | some op =>
      have hkept := (follows_reAppend (p := p.advance) op 0).zErr
      exact .ok (shadows_reAppend (shadows_advance h) op fun _ => rfl) hkept
    | none =>
      obtain ⟨hc, hesc⟩ := shadows_reEscChar h
      dsimp only
      exact .ok (shadows_reAppend hesc .match fun _ => hc)
        fun hz => (follows_reEscChar p).zErr ((follows_reAppend _ _).zErr hz)
  · exact hadd .match fun _ => rfl

section Alternatives

variable {i j : ℕ}

theorem kept_alternative (p : ReCompiled) (i : ℕ)
    (hz : ((p.reInsert i .fork ((p.nState : ℤ) + 2 - i)).1.reAppend .goto 0).1.zErr = none) :
    p.zErr = none :=
  (follows_reInsert i .fork _).zErr ((follows_reAppend .goto 0).zErr hz)

theorem shadows_fork (h : Shadows p q) (hsame : p.zErr = none → j = i) :
    Shadows (p.reInsert i .fork ((p.nState : ℤ) + 2 - i)).1
      (q.reInsert j .fork ((q.nState : ℤ) + 2 - j)).1 :=
  shadows_over h hsame .fork fun n i => (n : ℤ) + 2 - i

theorem shadows_alternative (h : Shadows p q) (hsame : p.zErr = none → j = i) :
    Shadows ((p.reInsert i .fork ((p.nState : ℤ) + 2 - i)).1.reAppend .goto 0).1
      ((q.reInsert j .fork ((q.nState : ℤ) + 2 - j)).1.reAppend .goto 0).1 :=
  shadows_reAppend (shadows_fork h hsame) .goto fun _ => rfl

theorem place_alternative (h : Shadows p q) (hsame : p.zErr = none → j = i)
    (hz : ((p.reInsert i .fork ((p.nState : ℤ) + 2 - i)).1.reAppend .goto 0).1.zErr = none) :
    ((q.reInsert j .fork ((q.nState : ℤ) + 2 - j)).1.reAppend .goto 0).2 =
      ((p.reInsert i .fork ((p.nState : ℤ) + 2 - i)).1.reAppend .goto 0).2 :=
  shadows_place (shadows_fork h hsame) hz

end Alternatives

/-- The three parts of the compiler read a text alike under both limits. -/
theorem shadowed_subcompile (fuel : ℕ) :
    (∀ p q, Shadows p q → Shadowed p.zErr (reSubcompileRe fuel p) (reSubcompileRe fuel q)) ∧
    (∀ i j p q, Shadows p q → (p.zErr = none → j = i) →
      Shadowed p.zErr (reAlternatives fuel i p) (reAlternatives fuel j q)) ∧
    ∀ i j p q, Shadows p q → SameOperand p i j →
      Shadowed p.zErr (reElements fuel i p) (reElements fuel j q) := by
  induction fuel with
  | zero => exact ⟨fun _ _ _ => .none, fun _ _ _ _ _ _ => .none, fun _ _ _ _ _ _ => .none⟩
  | succ fuel ih =>
    obtain ⟨ihRe, ihAlt, ihElems⟩ := ih
    refine ⟨?_, ?_, ?_⟩
    · intro p q h
      unfold reSubcompileRe
      apply shadowed_andThen (ihElems _ _ p q h .none)
      intro p' q' h' hz
      exact ihAlt _ _ p' q' h' fun hz' => h.nState (hz hz')
    · intro i j p q h hsame
      unfold reAlternatives
      dsimp only
      rw [h.rePeek]
      split_ifs
      · have hgoto := shadows_alternative h hsame
        have hkept := kept_alternative p i
        have hplace := place_alternative h hsame
        generalize (p.reInsert i .fork ((p.nState : ℤ) + 2 - i)).1.reAppend .goto 0 = pGoto at *
        generalize (q.reInsert j .fork ((q.nState : ℤ) + 2 - j)).1.reAppend .goto 0 = qGoto at *
        have helements := ihElems none none _ _ (shadows_advance hgoto) .none
        refine shadowed_kept (shadowed_andThen helements fun p' q' h' hz => ?_) hkept
        have hset : Shadows (p'.setArg pGoto.2 ((p'.nState : ℤ) - pGoto.2))
            (q'.setArg qGoto.2 ((q'.nState : ℤ) - qGoto.2)) := by
          apply shadows_setArg h'
          intro hz'
          rw [hplace (hz hz'), h'.nState hz']
          exact ⟨rfl, rfl⟩
        exact ihAlt i j _ _ hset fun hz' => hsame (hkept (hz hz'))
      · exact .ok h id
    · intro i j p q h hsame
      obtain ⟨hc, hnext⟩ := shadows_xNextChar h
      have hkept := (follows_xNextChar p).zErr
      unfold reElements
      dsimp only
      rw [hc]
      split_ifs
      · exact .ok hnext hkept
      · exact .ok h id
      · apply shadowed_andThen (shadowed_kept (ihRe _ _ hnext) hkept)
        intro p' q' h' hz
        rw [h'.rePeek]
        split_ifs
        · exact .error _ _
        · refine ihElems _ _ _ _ (shadows_advance h') (.some fun hz' => ?_)
          exact h.nState (hz hz')
      · have hoperand : SameOperand p.xNextChar.2 i j := by
          cases hsame with
          | none => exact .none
          | some hsame => exact .some fun hz => hsame (hkept hz)
        have helement := shadowed_reElement hnext hoperand p.xNextChar.1
        apply shadowed_andThen (shadowed_kept helement hkept)
        intro p' q' h' hz
        exact ihElems _ _ p' q' h' (.some fun hz' => h.nState (hz hz'))

theorem shadows_started (h : Shadows p q) (zIn : Bytes) :
    Shadows (started p zIn) (started q zIn) := by
  unfold started
  split_ifs
  · exact shadows_sIn h _
  · exact shadows_sIn (shadows_reAppend h .anystar fun _ => rfl) _

theorem shadowed_finished (h : Shadows p q) : Shadowed p.zErr (finished p) (finished q) := by
  have haccept : Shadows (p.reAppend .accept 0).1 (q.reAppend .accept 0).1 :=
    shadows_reAppend h .accept fun _ => rfl
  have hkept := (follows_reAppend (p := p) .accept 0).zErr
  -- the bytes to look ahead for are added to both
  have hinit (r : ReCompiled) : (if r.ops.head?.map Prod.fst = some .anystar ∧ ¬r.noCase then
      { r with zInit := dropNul (initBytes [] r.ops.tail) } else r) = { r with
        zInit := (if r.ops.head?.map Prod.fst = some .anystar ∧ ¬r.noCase then
          dropNul (initBytes [] r.ops.tail) else r.zInit) } := by
    split_ifs <;> rfl
  unfold finished
  rw [h.sIn]
  split_ifs
  · exact .error _ _
  dsimp only
  rw [hinit, hinit]
  generalize (p.reAppend .accept 0).1 = p' at *
  generalize (q.reAppend .accept 0).1 = q' at *
  cases hz : p'.zErr with
  | none =>
    rw [haccept.zErr hz]
    refine .ok ⟨haccept.sIn, haccept.noCase, ?_, haccept.limit, fun _ => haccept.ops hz,
      fun _ => haccept.nAlloc hz, fun _ => rfl, fun hne => absurd rfl hne⟩ fun _ => hkept hz
    dsimp only
    rw [haccept.ops hz, haccept.noCase, haccept.zInit]
  | some zErr =>
    obtain hbig | hq := haccept.failed (by simp [hz])
    · obtain rfl : zErr = tooBig := Option.some.inj (hz.symm.trans hbig)
      exact .tooBig _
    · obtain ⟨zErr', hzErr'⟩ := Option.ne_none_iff_exists'.mp hq
      rw [hzErr']
      exact .error _ _

end Compiler

theorem zErr_reCompile {mx : ℕ} {zIn : Bytes} {noCase : Bool} {p : ReCompiled}
    (h : reCompile zIn mx noCase = some (.ok p)) : p.zErr = none := by
  by_cases hsmall : mx < 30
  · rw [reCompile_of_ge hsmall] at h
    cases h
  rw [reCompile_of_lt hsmall] at h
  obtain ⟨q, -, h⟩ := andThen_eq h
  unfold finished at h
  dsimp only at h
  split at h
  · cases h
  · split at h
    · cases h
    · rename_i hz
      cases h
      exact hz

theorem shadowed_reCompile {mx mx' : ℕ} (hmx : mx ≤ mx') (zIn : Bytes) (noCase : Bool) :
    Shadowed none (reCompile zIn mx noCase) (reCompile zIn mx' noCase) := by
  by_cases hsmall : mx < 30
  · rw [reCompile_of_ge hsmall]
    exact .tooBig _
  rw [reCompile_of_lt hsmall, reCompile_of_lt (by omega)]
  have hstart : Shadows ⟨[], none, [], noCase, [], 30, mx⟩ ⟨[], none, [], noCase, [], 30, mx'⟩ :=
    ⟨rfl, rfl, rfl, hmx, fun _ => rfl, fun _ => rfl, fun _ => rfl, fun hz => absurd rfl hz⟩
  have hread := (shadowed_subcompile (enough (zIn.takeWhile (· ≠ 0)))).1 _ _
    (shadows_started hstart (zIn.takeWhile (· ≠ 0)))
  exact shadowed_andThen (shadowed_kept hread fun _ => rfl)
    fun p q h _ => shadowed_finished h

/-- What compiles under a larger limit compiles to the same code under a smaller one, or it is
too big for that. -/
theorem reCompile_limit {mx mx' : ℕ} (hmx : mx ≤ mx') {zIn : Bytes} {noCase : Bool}
    {q : ReCompiled} (h : reCompile zIn mx' noCase = some (.ok q)) :
    reCompile zIn mx noCase = some (.error tooBig) ∨
      ∃ p, reCompile zIn mx noCase = some (.ok p) ∧ p.ops = q.ops ∧ p.noCase = q.noCase := by
  have hread := shadowed_reCompile hmx zIn noCase
  rw [h] at hread
  generalize hp : reCompile zIn mx noCase = result at hread ⊢
  cases hread with
  | @ok p q h kept =>
    have hz := zErr_reCompile hp
    exact .inr ⟨p, rfl, (h.ops hz).symm, h.noCase.symm⟩
  | tooBig r => exact .inl rfl

end RSQLCipher.RegexpLimit
