import Mathlib.Data.List.TakeWhile
import RSQLCipher.RegexpProgram

namespace RSQLCipher.RegexpStates

open RSQLCipher.Values
open RSQLCipher.RegexpCompile
open RSQLCipher.RegexpMatch
open RSQLCipher.RegexpProgram
open RSQLCipher.Library
open RSQLCipher.Library.Worklist (Visit Swept Within Here There Reached SweptOf)

variable {ops : List Instr}

def Accepting (ops : List Instr) (x : ℕ) : Prop := ∃ arg, ops[x]? = some (.accept, arg)

def Goto (ops : List Instr) (x y : ℕ) : Prop :=
  ∃ arg, ops[x]? = some (.goto, arg) ∧ jump ops x arg = some y

/-- An accepting state is met in so many steps, from a state, after a character and before
those that are left. Past the end of the text only jumps are followed. -/
def Accepts (ops : List Instr) : ℕ → ℕ → List ℕ → ℕ → Prop
  | 0, _, _, _ => False
  | n + 1, cPrev, [], x => Accepting ops x ∨ ∃ y, Goto ops x y ∧ Accepts ops n cPrev [] y
  | n + 1, cPrev, c :: cs, x => Accepting ops x ∨
      (∃ y, Here (visit ops cPrev c) x y ∧ Accepts ops n cPrev (c :: cs) y) ∨
      ∃ y, There (visit ops cPrev c) x y ∧ Accepts ops n c cs y

def Reaches (ops : List Instr) (cPrev : ℕ) (cs : List ℕ) (x : ℕ) : Prop :=
  ∃ n, Accepts ops n cPrev cs x

section Paths

variable {cPrev c x : ℕ} {cs : List ℕ}

theorem reaches_nil : Reaches ops cPrev [] x ↔
    Accepting ops x ∨ ∃ y, Goto ops x y ∧ Reaches ops cPrev [] y := by
  constructor
  · rintro ⟨_ | n, h⟩
    · exact h.elim
    · obtain h | ⟨y, hxy, h⟩ := h
      · exact .inl h
      · exact .inr ⟨y, hxy, n, h⟩
  · rintro (h | ⟨y, hxy, n, h⟩)
    · exact ⟨1, .inl h⟩
    · exact ⟨n + 1, .inr ⟨y, hxy, h⟩⟩

theorem reaches_of_accepting (h : Accepting ops x) : Reaches ops cPrev cs x := by
  cases cs <;> exact ⟨1, .inl h⟩

theorem reaches_of_here {y : ℕ} (hxy : Here (visit ops cPrev c) x y)
    (h : Reaches ops cPrev (c :: cs) y) : Reaches ops cPrev (c :: cs) x := by
  obtain ⟨n, h⟩ := h
  exact ⟨n + 1, .inr (.inl ⟨y, hxy, h⟩)⟩

theorem reaches_of_there {y : ℕ} (hxy : There (visit ops cPrev c) x y)
    (h : Reaches ops c cs y) : Reaches ops cPrev (c :: cs) x := by
  obtain ⟨n, h⟩ := h
  exact ⟨n + 1, .inr (.inr ⟨y, hxy, h⟩)⟩

theorem visit_eq {o : Instr} (hx : ops[x]? = some o) :
    visit ops cPrev c x = perform ops cPrev c x o := by
  rw [visit, hx, Option.bind_some]

theorem visit_accept : visit ops cPrev c x = some .accept ↔ Accepting ops x := by
  unfold Accepting
  cases hx : ops[x]? with
  | none => simp [visit, hx]
  | some o =>
    rw [visit_eq hx]
    unfold perform
    obtain ⟨op, arg⟩ := o
    cases op with
    | fork | ccInc => simp [charTest, placeTest, Option.bind_eq_some_iff]
    | ccExc =>
      simp only [charTest, placeTest]
      split_ifs <;> simp [Option.bind_eq_some_iff]
    | _ => simp [charTest, placeTest]

/-- What a sweep finds is what the paths from its states find. -/
theorem reaches_iff_swept {states : List ℕ} : (∃ x ∈ states, Reaches ops cPrev (c :: cs) x) ↔
    (∃ x, Reached (visit ops cPrev c) states x ∧ visit ops cPrev c x = some .accept) ∨
    ∃ y, (∃ x, Reached (visit ops cPrev c) states x ∧ There (visit ops cPrev c) x y) ∧
      Reaches ops c cs y := by
  constructor
  · rintro ⟨x, hx, n, h⟩
    have hreached : Reached (visit ops cPrev c) states x := Worklist.reached_of_mem hx
    clear hx
    induction n generalizing x with
    | zero => exact h.elim
    | succ n ih =>
      obtain h | ⟨y, hxy, h⟩ | ⟨y, hxy, h⟩ := h
      · exact .inl ⟨x, hreached, visit_accept.mpr h⟩
      · exact ih y h (Worklist.reached_step hreached hxy)
      · exact .inr ⟨y, ⟨x, hreached, hxy⟩, n, h⟩
  · have hback {x : ℕ} (hx : Reached (visit ops cPrev c) states x)
        (h : Reaches ops cPrev (c :: cs) x) : ∃ x ∈ states, Reaches ops cPrev (c :: cs) x := by
      obtain ⟨s, hs, hsx⟩ := hx
      refine ⟨s, hs, ?_⟩
      induction hsx with
      | refl => exact h
      | tail _ hstep ih => exact ih (reaches_of_here hstep h)
    rintro (⟨x, hx, haccept⟩ | ⟨y, ⟨x, hx, hxy⟩, h⟩)
    · exact hback hx (reaches_of_accepting (visit_accept.mp haccept))
    · exact hback hx (reaches_of_there hxy h)

end Paths

section Safe

variable {cPrev c x : ℕ} {arg : ℤ}

theorem instr_of_wellFormed (h : WellFormed ops) (hx : x < ops.length) :
    Accepting ops x ∨ ∃ o, ops[x]? = some o ∧ Fits 0 (ops.length - 1) x o ∧ x + 1 < ops.length := by
  obtain ⟨code, arg, rfl, hclosed⟩ := h
  rw [List.length_append, List.length_singleton] at hx ⊢
  obtain hlt | rfl := Nat.lt_succ_iff_lt_or_eq.mp hx
  · right
    have hget := List.getElem?_eq_getElem hlt
    refine ⟨code[x], ?_, hclosed x _ (Nat.zero_le x) hget, by omega⟩
    rw [List.getElem?_append_left hlt, hget]
  · left
    exact ⟨arg, by simp⟩

theorem jump_eq {y : ℕ} (hy : (x : ℤ) + arg = y) (hlt : y < ops.length) :
    jump ops x arg = some y := by
  unfold jump
  dsimp only
  rw [hy, if_pos ⟨Int.natCast_nonneg y, by exact_mod_cast hlt⟩, Int.toNat_natCast]

theorem jump_lt {y : ℕ} (h : jump ops x arg = some y) : y < ops.length ∧ (x : ℤ) + arg = y := by
  unfold jump at h
  dsimp only at h
  split_ifs at h with hbounds
  cases h
  omega

theorem moveIf_isSome (h : ∃ y, jump ops x arg = some y) (test : Bool) :
    ∃ l, moveIf ops x arg test = some l ∧ ∀ y ∈ l, y < ops.length := by
  obtain ⟨y, hy⟩ := h
  cases test
  · exact ⟨[], rfl, by simp⟩
  · refine ⟨[y], by simp [moveIf, hy], ?_⟩
    intro z hz
    rw [List.mem_singleton] at hz
    exact hz ▸ (jump_lt hy).1

theorem classHit_isSome {c n : ℤ} (hn : (x : ℤ) + n < ops.length) (fuel j : ℕ)
    (hpos : 0 < fuel) (hfuel : n < fuel + j) :
    ∃ hit, classHit ops x c n fuel j = some hit := by
  induction fuel generalizing j with
  | zero => omega
  | succ fuel ih =>
    unfold classHit
    by_cases hj : (j : ℤ) < n
    · have hget : x + j < ops.length := by omega
      rw [if_pos hj, List.getElem?_eq_getElem hget]
      obtain ⟨op, arg⟩ := ops[x + j]
      have hone := ih (j + 1) (by omega) (by omega)
      have htwo := ih (j + 2) (by omega) (by omega)
      have hnext : x + j + 1 < ops.length := by omega
      cases op with
      | ccValue =>
        dsimp only
        split_ifs
        · exact ⟨true, rfl⟩
        · exact hone
      | _ =>
        dsimp only
        rw [List.getElem?_eq_getElem hnext]
        dsimp only
        split_ifs
        · exact ⟨true, rfl⟩
        · exact htwo
        · exact htwo
    · exact ⟨false, if_neg hj⟩

theorem closed_visit (h : WellFormed ops) (cPrev c : ℕ) :
    Worklist.Closed (visit ops cPrev c) (Finset.range ops.length) := by
  intro x hx
  rw [Finset.mem_range] at hx
  obtain haccept | ⟨⟨op, arg⟩, hop, hfits, hnext⟩ := instr_of_wellFormed h hx
  · exact .inl (visit_accept.mpr haccept)
  right
  have hone : ∃ y, jump ops x 1 = some y := ⟨x + 1, jump_eq (by push_cast; rfl) hnext⟩
  have hthere (test : Bool) : ∃ here there,
      (moveIf ops x 1 test).map (fun l => Visit.go [] l) = some (.go here there) ∧
      (∀ y ∈ here, y ∈ Finset.range ops.length) ∧ ∀ y ∈ there, y ∈ Finset.range ops.length := by
    obtain ⟨l, hl, hmem⟩ := moveIf_isSome hone test
    exact ⟨[], l, by rw [hl]; rfl, by simp, by simpa using hmem⟩
  have hhere (test : Bool) : ∃ here there,
      (moveIf ops x 1 test).map (fun l => Visit.go l []) = some (.go here there) ∧
      (∀ y ∈ here, y ∈ Finset.range ops.length) ∧ ∀ y ∈ there, y ∈ Finset.range ops.length := by
    obtain ⟨l, hl, hmem⟩ := moveIf_isSome hone test
    exact ⟨l, [], by rw [hl]; rfl, by simpa using hmem, by simp⟩
  have hahead {arg : ℤ} (hfits : 1 ≤ arg ∧ (x : ℤ) + arg ≤ (ops.length - 1 : ℕ)) :
      ∃ y, jump ops x arg = some y := by
    obtain ⟨y, hy⟩ : ∃ y : ℕ, (x : ℤ) + arg = y := Int.eq_ofNat_of_zero_le (by omega)
    exact ⟨y, jump_eq hy (by omega)⟩
  have hclass {arg : ℤ} (hfits : 1 ≤ arg ∧ (x : ℤ) + arg ≤ (ops.length - 1 : ℕ)) :
      ∃ hit, classHit ops x c arg (ops.length + 1) 1 = some hit :=
    classHit_isSome (by omega) _ _ (Nat.succ_pos _) (by omega)
  rw [visit_eq hop]
  unfold perform
  cases op with
  | «match» | any | word | notword | digit | notdigit | space | notspace => exact hthere _
  | boundary | atstart => exact hhere _
  | ccValue | ccRange => exact ⟨[], [], rfl, by simp, by simp⟩
  | accept => exact hfits.elim
  | anystar =>
    dsimp only
    rw [jump_eq (y := x + 1) (by push_cast; rfl) hnext]
    refine ⟨[x + 1], [x], rfl, ?_, ?_⟩
    · simpa using hnext
    · simpa using hx
  | fork =>
    obtain ⟨y, hy⟩ : ∃ y : ℕ, (x : ℤ) + arg = y := Int.eq_ofNat_of_zero_le hfits.1
    have hylt : y < ops.length := by
      have := hfits.2
      omega
    dsimp only
    rw [jump_eq hy hylt, jump_eq (y := x + 1) (by push_cast; rfl) hnext]
    refine ⟨[y, x + 1], [], rfl, ?_, by simp⟩
    simpa using ⟨hylt, hnext⟩
  | goto =>
    obtain ⟨y, hy⟩ := hahead hfits
    refine ⟨[y], [], by simp [charTest, placeTest, hy], ?_, by simp⟩
    simpa using (jump_lt hy).1
  | ccInc =>
    obtain ⟨hit, hhit⟩ := hclass hfits
    obtain ⟨l, hl, hmem⟩ := moveIf_isSome (hahead hfits) hit
    exact ⟨[], l, by simp [charTest, placeTest, hhit, hl], by simp,
      by simpa using hmem⟩
  | ccExc =>
    obtain ⟨hit, hhit⟩ := hclass hfits
    obtain ⟨l, hl, hmem⟩ := moveIf_isSome (hahead hfits) !hit
    simp only [charTest, placeTest]
    split_ifs
    · exact ⟨[], [], rfl, by simp, by simp⟩
    · exact ⟨[], l, by simp [hhit, hl], by simp, by simpa using hmem⟩

theorem round_spec (h : WellFormed ops) (cPrev c : ℕ) {states : List ℕ}
    (hstates : Within (Finset.range ops.length) states) :
    ∃ r, round ops cPrev c states = some r ∧
      SweptOf (visit ops cPrev c) (Finset.range ops.length) states r :=
  Worklist.sweep_spec (by rw [Finset.card_range]) (closed_visit h cPrev c) hstates

theorem endsInAccept_spec (h : WellFormed ops) (cPrev fuel x : ℕ) (hx : x < ops.length)
    (hfuel : ops.length ≤ fuel + x) :
    ∃ b, endsInAccept ops fuel x = some b ∧ (b = true ↔ Reaches ops cPrev [] x) := by
  induction fuel generalizing x with
  | zero => omega
  | succ fuel ih =>
    rw [reaches_nil]
    unfold endsInAccept
    obtain ⟨arg, haccept⟩ | ⟨⟨op, arg⟩, hop, hfits, hnext⟩ := instr_of_wellFormed h hx
    · refine ⟨true, by rw [haccept], ?_⟩
      simp only [true_iff]
      exact .inl ⟨arg, haccept⟩
    have hnot : op ≠ .accept → ¬Accepting ops x := by
      rintro hne ⟨arg', harg'⟩
      rw [hop, Option.some.injEq, Prod.mk.injEq] at harg'
      exact hne harg'.1
    cases op with
    | accept => exact hfits.elim
    | goto =>
      obtain ⟨hpos, htop⟩ := hfits
      obtain ⟨y, hy⟩ : ∃ y : ℕ, (x : ℤ) + arg = y := Int.eq_ofNat_of_zero_le (by omega)
      have hjump := jump_eq hy (by omega : y < ops.length)
      obtain ⟨b, hb, hiff⟩ := ih y (by omega) (by omega)
      refine ⟨b, ?_, hiff.trans ?_⟩
      · rw [hop]
        dsimp only
        rw [hjump]
        exact hb
      · constructor
        · intro hy
          exact .inr ⟨y, ⟨arg, hop, hjump⟩, hy⟩
        · rintro (haccept | ⟨y', ⟨arg', hop', hjump'⟩, hy'⟩)
          · exact absurd haccept (hnot (by simp))
          · rw [hop, Option.some.injEq, Prod.mk.injEq] at hop'
            rw [← hop'.2, hjump, Option.some.injEq] at hjump'
            exact hjump' ▸ hy'
    | _ =>
      refine ⟨false, by rw [hop], ?_⟩
      simp only [Bool.false_eq_true, false_iff, not_or, not_exists, not_and]
      refine ⟨hnot (by simp), ?_⟩
      rintro y ⟨arg', hop', -⟩
      rw [hop] at hop'
      cases hop'

theorem anyAccepts_spec (h : WellFormed ops) (cPrev : ℕ) (states : List ℕ)
    (hstates : ∀ x ∈ states, x < ops.length) :
    ∃ b, anyAccepts ops states = some b ∧ (b = true ↔ ∃ x ∈ states, Reaches ops cPrev [] x) := by
  induction states with
  | nil => exact ⟨false, rfl, by simp⟩
  | cons x xs ih =>
    obtain ⟨b, hb, hiff⟩ := endsInAccept_spec h cPrev (ops.length + 1) x
      (hstates x List.mem_cons_self) (by omega)
    obtain ⟨b', hb', hiff'⟩ := ih fun y hy => hstates y (List.mem_cons_of_mem x hy)
    unfold anyAccepts
    rw [hb]
    cases b with
    | true =>
      refine ⟨true, rfl, ?_⟩
      simp only [true_iff]
      exact ⟨x, List.mem_cons_self, hiff.mp rfl⟩
    | false =>
      refine ⟨b', hb', hiff'.trans ?_⟩
      have hx : ¬Reaches ops cPrev [] x := by
        rw [← hiff]
        simp
      simp [hx]

end Safe

section Moves

variable {cPrev c x : ℕ} {cs : List ℕ} {o : Instr} {here there : List ℕ}

theorem accepts_step (h : visit ops cPrev c x = some (.go here there)) (n : ℕ) :
    Accepts ops (n + 1) cPrev (c :: cs) x ↔
      (∃ y ∈ here, Accepts ops n cPrev (c :: cs) y) ∨ ∃ y ∈ there, Accepts ops n c cs y := by
  have hnot : ¬Accepting ops x := by
    intro haccept
    rw [visit_accept.mpr haccept] at h
    cases h
  have hhere (y : ℕ) : Here (visit ops cPrev c) x y ↔ y ∈ here := by
    simp [Here, h]
  have hthere (y : ℕ) : There (visit ops cPrev c) x y ↔ y ∈ there := by
    simp [There, h]
  simp only [Accepts, hnot, false_or, hhere, hthere]

theorem reaches_step (h : visit ops cPrev c x = some (.go here there)) :
    Reaches ops cPrev (c :: cs) x ↔
      (∃ y ∈ here, Reaches ops cPrev (c :: cs) y) ∨ ∃ y ∈ there, Reaches ops c cs y := by
  constructor
  · rintro ⟨_ | n, hn⟩
    · exact hn.elim
    · obtain ⟨y, hy, hn⟩ | ⟨y, hy, hn⟩ := (accepts_step h n).mp hn
      · exact .inl ⟨y, hy, n, hn⟩
      · exact .inr ⟨y, hy, n, hn⟩
  · rintro (⟨y, hy, n, hn⟩ | ⟨y, hy, n, hn⟩)
    · exact ⟨n + 1, (accepts_step h n).mpr (.inl ⟨y, hy, hn⟩)⟩
    · exact ⟨n + 1, (accepts_step h n).mpr (.inr ⟨y, hy, hn⟩)⟩

theorem moveIf_one (hnext : x + 1 < ops.length) (test : Bool) :
    moveIf ops x 1 test = some (if test then [x + 1] else []) := by
  cases test
  · rfl
  · simp [moveIf, jump_eq (y := x + 1) (by push_cast; rfl) hnext]

theorem visit_char {test : Bool} (hx : ops[x]? = some o) (ho : charTest c o = some test)
    (hnext : x + 1 < ops.length) :
    visit ops cPrev c x = some (.go [] (if test then [x + 1] else [])) := by
  rw [visit_eq hx]
  unfold perform
  rw [ho]
  simp [moveIf_one hnext]

theorem visit_place {test : Bool} (hx : ops[x]? = some o) (ho : charTest c o = none)
    (hplace : placeTest cPrev c o = some test) (hnext : x + 1 < ops.length) :
    visit ops cPrev c x = some (.go (if test then [x + 1] else []) []) := by
  rw [visit_eq hx]
  unfold perform
  rw [ho, hplace]
  simp [moveIf_one hnext]

/-- Past the end of the text only a jump or the accepting state is left to follow. -/
theorem not_reaches_nil (hx : ops[x]? = some o) (haccept : o.1 ≠ .accept) (hgoto : o.1 ≠ .goto) :
    ¬Reaches ops cPrev [] x := by
  rw [reaches_nil]
  rintro (⟨arg, h⟩ | ⟨y, ⟨arg, h, -⟩, -⟩)
  · rw [hx, Option.some.injEq] at h
    exact haccept (h ▸ rfl)
  · rw [hx, Option.some.injEq] at h
    exact hgoto (h ▸ rfl)

theorem next_lt_of_wellFormed (h : WellFormed ops) (hx : ops[x]? = some o)
    (haccept : o.1 ≠ .accept) : x + 1 < ops.length := by
  obtain ⟨arg, harg⟩ | ⟨_, -, -, hnext⟩ :=
    instr_of_wellFormed h (List.getElem?_eq_some_iff.mp hx).1
  · rw [hx, Option.some.injEq] at harg
    exact absurd (harg ▸ rfl) haccept
  · exact hnext

theorem visit_anystar {arg : ℤ} (hx : ops[x]? = some (.anystar, arg)) (hnext : x + 1 < ops.length) :
    visit ops cPrev c x = some (.go [x + 1] [x]) := by
  rw [visit_eq hx]
  simp [perform, charTest, placeTest, jump_eq (y := x + 1) (by push_cast; rfl) hnext]

theorem visit_fork {arg : ℤ} {y : ℕ} (hx : ops[x]? = some (.fork, arg)) (hy : (x : ℤ) + arg = y)
    (hylt : y < ops.length) (hnext : x + 1 < ops.length) :
    visit ops cPrev c x = some (.go [y, x + 1] []) := by
  rw [visit_eq hx]
  simp [perform, charTest, placeTest, jump_eq hy hylt,
    jump_eq (y := x + 1) (by push_cast; rfl) hnext]

theorem visit_goto {arg : ℤ} {y : ℕ} (hx : ops[x]? = some (.goto, arg)) (hy : (x : ℤ) + arg = y)
    (hylt : y < ops.length) : visit ops cPrev c x = some (.go [y] []) := by
  rw [visit_eq hx]
  simp [perform, charTest, placeTest, jump_eq hy hylt]

end Moves

section Text

/-- What the functions that read a character have in common. -/
structure Reader (next : Bytes → ℕ × Bytes) : Prop where
  nil : next [] = (0, [])
  shorter : ∀ b z, (next (b :: z)).2.length ≤ z.length
  suffix : ∀ z, (next z).2 <:+ z
  nonzero : ∀ b z, b ≠ 0 → (next (b :: z)).1 ≠ 0

theorem reader_reNextChar : Reader reNextChar := by
  refine ⟨rfl, ?_, ?_, ?_⟩
  · intro b z
    exact shorter_reNextChar (b :: z)
  · intro z
    unfold reNextChar
    split
    · exact List.suffix_rfl
    · dsimp only
      split_ifs <;> (try split) <;> (try split_ifs) <;>
        simp only [List.suffix_cons_iff, List.suffix_rfl, or_true]
  · intro b z hb
    have hb' : b.toNat ≠ 0 := by
      intro h
      exact hb (UInt8.toNat_inj.mp h)
    unfold reNextChar
    dsimp only
    split_ifs <;> (try split) <;> (try split_ifs) <;> first
      | exact hb'
      | omega

theorem reader_reNextCharNocase : Reader reNextCharNocase := by
  obtain ⟨hnil, hshorter, hsuffix, hnonzero⟩ := reader_reNextChar
  refine ⟨?_, hshorter, hsuffix, ?_⟩
  · simp [reNextCharNocase, hnil, foldCase]
  · intro b z hb
    have hchar := hnonzero b z hb
    simp only [reNextCharNocase, foldCase]
    split_ifs <;> omega

theorem reader_nextCharOf (noCase : Bool) : Reader (nextCharOf noCase) := by
  cases noCase
  · exact reader_reNextChar
  · exact reader_reNextCharNocase

/-- The characters of a text, for a reader that makes so many steps at most. -/
def charsWith (next : Bytes → ℕ × Bytes) : ℕ → Bytes → List ℕ
  | 0, _ => []
  | n + 1, z => if z = [] then [] else (next z).1 :: charsWith next n (next z).2

def chars (next : Bytes → ℕ × Bytes) (z : Bytes) : List ℕ := charsWith next z.length z

variable {next : Bytes → ℕ × Bytes}

theorem charsWith_eq (hnext : Reader next) (n : ℕ) (z : Bytes) (h : z.length ≤ n) :
    charsWith next n z = chars next z := by
  induction n using Nat.strong_induction_on generalizing z with
  | _ n ih =>
    cases z with
    | nil => cases n <;> rfl
    | cons b z =>
      obtain ⟨n, rfl⟩ : ∃ k, n = k + 1 := ⟨n - 1, by rw [List.length_cons] at h; omega⟩
      rw [List.length_cons] at h
      have hshorter := hnext.shorter b z
      simp only [chars, List.length_cons, charsWith, reduceCtorEq, if_false]
      rw [ih n (Nat.lt_succ_self n) _ (by omega)]
      congr 1
      exact (ih z.length (by omega) _ hshorter).symm

theorem chars_nil : chars next [] = [] := rfl

theorem chars_cons (hnext : Reader next) (b : UInt8) (z : Bytes) :
    chars next (b :: z) = (next (b :: z)).1 :: chars next (next (b :: z)).2 := by
  rw [chars, List.length_cons, charsWith, if_neg (List.cons_ne_nil b z),
    charsWith_eq hnext _ _ (hnext.shorter b z)]

theorem nul_notMem_next (hnext : Reader next) {z : Bytes} (h : 0 ∉ z) : 0 ∉ (next z).2 :=
  fun hmem => h ((hnext.suffix z).subset hmem)

end Text

section Rounds

variable {next : Bytes → ℕ × Bytes}

/-- The matcher finds what the paths from its states find, on every well-formed program: it
ends, stays in the program and overruns no set. -/
theorem rounds_spec (hnext : Reader next) (h : WellFormed ops) (fuel c : ℕ) (z : Bytes)
    (states : List ℕ) (hc : c ≠ 0) (hz : 0 ∉ z) (hfuel : z.length + 2 ≤ fuel)
    (hstates : Within (Finset.range ops.length) states) :
    ∃ b, rounds next ops fuel c z states = some b ∧
      (b = true ↔ ∃ x ∈ states, Reaches ops c (chars next z ++ [0]) x) := by
  induction fuel generalizing c z states with
  | zero => omega
  | succ fuel ih =>
    unfold rounds
    by_cases hempty : states = []
    · subst hempty
      exact ⟨false, by simp [anyAccepts], by simp⟩
    rw [if_pos ⟨hc, hempty⟩]
    obtain ⟨r, hr, hswept⟩ := round_spec h c (next z).1 hstates
    rw [hr]
    -- The characters left begin with the one that is read, which is 0 at the end.
    obtain ⟨cs, hcs, hrest⟩ : ∃ cs, chars next z ++ [0] = (next z).1 :: cs ∧
        ∀ states', Within (Finset.range ops.length) states' →
          ∃ b, rounds next ops fuel (next z).1 (next z).2 states' = some b ∧
            (b = true ↔ ∃ x ∈ states', Reaches ops (next z).1 cs x) := by
      cases z with
      | nil =>
        refine ⟨[], by simp [chars_nil, hnext.nil], fun states' hstates' => ?_⟩
        obtain ⟨k, rfl⟩ : ∃ k, fuel = k + 1 := ⟨fuel - 1, by omega⟩
        simp only [rounds, hnext.nil, RE_EOF, ne_eq, not_true, false_and, if_false]
        exact anyAccepts_spec h 0 states' fun x hx => Finset.mem_range.mp (hstates'.2 x hx)
      | cons b z =>
        refine ⟨chars next (next (b :: z)).2 ++ [0], ?_, fun states' hstates' => ?_⟩
        · rw [chars_cons hnext]
          rfl
        · have hshorter := hnext.shorter b z
          rw [List.length_cons] at hfuel
          apply ih _ _ _ _ (nul_notMem_next hnext hz) (by omega) hstates'
          apply hnext.nonzero
          rintro rfl
          exact hz List.mem_cons_self
    rw [hcs, reaches_iff_swept]
    cases r with
    | accepted =>
      refine ⟨true, rfl, ?_⟩
      simp only [true_iff]
      exact .inl hswept
    | next states' =>
      obtain ⟨hnone, hwithin, hmem⟩ := hswept
      obtain ⟨b, hb, hiff⟩ := hrest states' hwithin
      refine ⟨b, hb, hiff.trans ?_⟩
      simp only [hnone, false_or, hmem]

theorem nul_notMem_takeWhile (zIn : Bytes) : 0 ∉ zIn.takeWhile (· ≠ 0) := by
  intro h
  have := List.mem_takeWhile_imp h
  simp at this

theorem search_suffix {zInit z y : Bytes} (h : search zInit z = some y) : y <:+ z := by
  induction z with
  | nil => cases h
  | cons b z ih =>
    unfold search at h
    split_ifs at h
    · cases h
      exact List.suffix_rfl
    · exact (ih h).trans (List.suffix_cons b z)

theorem within_start (h : WellFormed ops) : Within (Finset.range ops.length) [0] := by
  obtain ⟨code, arg, rfl, -⟩ := h
  exact ⟨List.nodup_singleton 0, by simp⟩

/-- A run of the matcher from a text on. -/
theorem run_spec (hnext : Reader next) (h : WellFormed ops) (c : ℕ) (hc : c ≠ 0) (z : Bytes)
    (hz : 0 ∉ z) : ∃ b, rounds next ops (z.length + 2) c z [0] = some b ∧
      (b = true ↔ Reaches ops c (chars next z ++ [0]) 0) := by
  obtain ⟨b, hb, hiff⟩ := rounds_spec hnext h (z.length + 2) c z [0] hc hz le_rfl (within_start h)
  exact ⟨b, hb, by simpa using hiff⟩

/-- The matcher is safe on every program that an expression compiles to and every text: it
comes to an end, reads the program within its bounds only, and never has more states in a
set than there is room for. -/
theorem reMatch_ne_none {zPattern : Bytes} {mxRe : ℕ} {noCase : Bool} {p : ReCompiled}
    (h : reCompile zPattern mxRe noCase = some (.ok p)) (zIn : Bytes) : reMatch p zIn ≠ none := by
  obtain ⟨hcompiled, -⟩ := compiled_of_reCompile h
  have hnul := nul_notMem_takeWhile zIn
  have hrun (c : ℕ) (hc : c ≠ 0) (z : Bytes) (hz : 0 ∉ z) :
      rounds (nextCharOf p.noCase) p.ops (z.length + 2) c z [0] ≠ none := by
    obtain ⟨b, hb, -⟩ := run_spec (reader_nextCharOf p.noCase) hcompiled.wellFormed c hc z hz
    rw [hb]
    exact Option.some_ne_none b
  unfold reMatch
  dsimp only
  split_ifs
  · exact hrun _ (by decide) _ hnul
  · split
    · exact Option.some_ne_none _
    · rename_i y hy
      exact hrun _ (by decide) _ fun hmem => hnul ((search_suffix hy).subset hmem)

end Rounds

end RSQLCipher.RegexpStates
