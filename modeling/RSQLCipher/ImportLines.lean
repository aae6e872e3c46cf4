import RSQLCipher.ImportFile
import RSQLCipher.Library.Delimited
import Mathlib.Data.List.TakeWhile

namespace RSQLCipher.ImportLines

open RSQLCipher.Library RSQLCipher.Values RSQLCipher.ImportFile

variable {σ : Type}

theorem checkEol_spec (buf eol : Bytes) (j : Nat) (hj : j < buf.length) :
    ∃ found, checkEol buf eol j = .ok found ∧
      (found = true ↔ ∀ k, 0 < k → k ≤ j →
        buf[buf.length - 1 - k]? = eol[eol.length - 1 - k]?) := by
  induction j with
  | zero => exact ⟨true, rfl, by simp; omega⟩
  | succ j ih =>
    obtain ⟨found, hcheck, hfound⟩ := ih (by omega)
    by_cases heq : buf[buf.length - 1 - (j + 1)]? = eol[eol.length - 1 - (j + 1)]?
    · refine ⟨found, by simp [checkEol, hj, heq, hcheck], hfound.trans ?_⟩
      constructor
      · intro h k hpos hle
        obtain rfl | hlt := Nat.eq_or_lt_of_le hle
        · exact heq
        · exact h k hpos (Nat.le_of_lt_succ hlt)
      · intro h k hpos hle
        exact h k hpos (by omega)
    · refine ⟨false, by simp [checkEol, hj, heq], ?_⟩
      simp only [Bool.false_eq_true, false_iff]
      intro h
      exact heq (h (j + 1) (Nat.succ_pos j) le_rfl)

theorem suffix_iff_backwards {buf eol : Bytes} (hlen : eol.length ≤ buf.length) :
    eol <:+ buf ↔ ∀ k, k < eol.length →
      buf[buf.length - 1 - k]? = eol[eol.length - 1 - k]? := by
  rw [List.suffix_iff_getElem?]
  constructor
  · rintro ⟨-, h⟩ k hk
    have hat := h (eol.length - 1 - k) (by omega)
    rw [List.getElem?_eq_getElem (by omega : eol.length - 1 - k < eol.length), ← hat]
    congr 1
    omega
  · intro h
    refine ⟨hlen, fun k hk => ?_⟩
    have hat := h (eol.length - 1 - k) (by omega)
    rw [← List.getElem?_eq_getElem hk]
    have heq : eol.length - 1 - (eol.length - 1 - k) = k := by omega
    rw [heq] at hat
    rw [← hat]
    congr 1
    omega

theorem checkEol_suffix {seen eol : Bytes} {ceol : UInt8} (hlast : eol.getLast? = some ceol)
    (hlen : eol.length ≤ seen.length + 1) :
    checkEol (seen ++ [ceol]) eol (eol.length - 1) = .ok (decide (eol <:+ seen ++ [ceol])) := by
  have hpos : 0 < eol.length := by
    rw [List.length_pos_iff]
    rintro rfl
    cases hlast
  obtain ⟨found, hcheck, hfound⟩ := checkEol_spec (seen ++ [ceol]) eol
    (eol.length - 1) (by simp; omega)
  rw [hcheck]
  congr 1
  rw [Bool.eq_iff_iff, hfound, decide_eq_true_iff, suffix_iff_backwards (by simpa using hlen)]
  constructor
  · intro h k hk
    cases k with
    | zero =>
      rw [List.getLast?_eq_getElem?] at hlast
      simp [hlast]
    | succ k => exact h (k + 1) (Nat.succ_pos k) (by omega)
  · intro h k hpos hle
    exact h k (by omega)

theorem checkEol_short {seen eol : Bytes} {c : UInt8} (hlen : seen.length + 1 < eol.length) :
    checkEol (seen ++ [c]) eol (eol.length - 1) = .error .undefined := by
  obtain ⟨j, hj⟩ : ∃ j, eol.length - 1 = j + 1 := ⟨eol.length - 2, by omega⟩
  rw [hj, checkEol, if_neg]
  simp only [List.length_append, List.length_singleton]
  omega

structure Room (b : LineBuffer) : Prop where
  cells : b.buf.length ≤ b.nc
  some : 0 < b.nc

def grown (b : LineBuffer) : Nat := if b.buf.length = b.nc then 2 * b.nc else b.nc

theorem Room.grown {b : LineBuffer} (h : Room b) : b.buf.length < grown b := by
  have hcells := h.cells
  have hsome := h.some
  rw [ImportLines.grown]
  split <;> omega

theorem Room.next {b : LineBuffer} (h : Room b) (c : UInt8) (found : Bool) :
    Room { buf := b.buf ++ [c], nc := ImportLines.grown b, foundEol := found } := by
  have hlt := h.grown
  exact ⟨by simp; omega, by simp; omega⟩

section Rounds

variable {signedChar : Bool} {eol : Bytes} {ceol : UInt8} {st : ImportState σ} {b : LineBuffer}

theorem round_eof (hin : st.input = []) :
    getlineRound signedChar eol ceol b st = .ok ({ b with nc := grown b }, false) st := by
  simp [getlineRound, fgetc, hin, grown]

theorem round_other {c : UInt8} {rest : Bytes} (hin : st.input = c :: rest) (hroom : Room b)
    (hc : sameByte signedChar c ceol = false) :
    getlineRound signedChar eol ceol b st =
      .ok ({ buf := b.buf ++ [c], nc := grown b, foundEol := false }, true)
        { st with input := rest } := by
  have hlt := hroom.grown
  rw [grown] at hlt
  simp [getlineRound, fgetc, hin, grown, hc, Nat.not_le.mpr hlt]

theorem round_same {c : UInt8} {rest : Bytes} (hin : st.input = c :: rest) (hroom : Room b)
    (hc : sameByte signedChar c ceol = true) {found : Bool}
    (hcheck : checkEol (b.buf ++ [c]) eol (eol.length - 1) = .ok found) :
    getlineRound signedChar eol ceol b st =
      .ok ({ buf := b.buf ++ [c], nc := grown b, foundEol := found }, !found)
        { st with input := rest } := by
  have hlt := hroom.grown
  rw [grown] at hlt
  simp [getlineRound, fgetc, hin, grown, hc, Nat.not_le.mpr hlt, hcheck, liftExcept]

theorem round_fault {c : UInt8} {rest : Bytes} (hin : st.input = c :: rest) (hroom : Room b)
    (hc : sameByte signedChar c ceol = true) {e : ImportFault}
    (hcheck : checkEol (b.buf ++ [c]) eol (eol.length - 1) = .error e) :
    getlineRound signedChar eol ceol b st = .error e { st with input := rest } := by
  have hlt := hroom.grown
  rw [grown] at hlt
  simp [getlineRound, fgetc, hin, hc, Nat.not_le.mpr hlt, hcheck, liftExcept]

end Rounds

theorem mem_take_cons {a c : UInt8} {l : Bytes} {n : Nat} :
    a ∈ (c :: l).take n ↔ 0 < n ∧ (a = c ∨ a ∈ l.take (n - 1)) := by
  cases n with
  | zero => simp
  | succ n => simp

theorem last_of_suffix {eol buf : Bytes} {ceol c : UInt8} (hlast : eol.getLast? = some ceol)
    (h : eol <:+ buf ++ [c]) : c = ceol := by
  obtain ⟨t, ht⟩ := h
  have heq := congrArg List.getLast? ht
  rw [List.getLast?_append, List.getLast?_append, hlast] at heq
  exact (Option.some.inj heq).symm

section Loops

variable {signedChar : Bool} {eol : Bytes} {ceol : UInt8}

/-- Without a byte that is taken for the end of `eol`, all of the input is read. -/
theorem loop_unseen (eol : Bytes) (hnever : ∀ c, sameByte signedChar c ceol = false) (l : Bytes)
    (b : LineBuffer) (st : ImportState σ) (hin : st.input = l) (hroom : Room b)
    (hb : b.foundEol = false) :
    ∃ nc, loop .stuck (getlineRound signedChar eol ceol) (l.length + 1) b st =
      .ok { buf := b.buf ++ l, nc := nc, foundEol := false } { st with input := [] } := by
  induction l generalizing b st with
  | nil =>
    refine ⟨grown b, ?_⟩
    rw [loop_stop (round_eof hin), List.append_nil, ← hin, ← hb]
  | cons c l ih =>
    obtain ⟨nc, hloop⟩ := ih { buf := b.buf ++ [c], nc := grown b, foundEol := false }
      { st with input := l } rfl (hroom.next c false) rfl
    refine ⟨nc, ?_⟩
    rw [List.length_cons, loop_more (round_other hin hroom (hnever c)), hloop,
      List.append_assoc, List.singleton_append]

/-- Where the last byte of `eol` does not come too early, the loop reads up to the
first `eol`, or all of the input. -/
theorem loop_line (hsame : ∀ c, sameByte signedChar c ceol = (c == ceol))
    (hlast : eol.getLast? = some ceol) (l : Bytes) (b : LineBuffer) (st : ImportState σ)
    (hin : st.input = l) (hroom : Room b) (hb : b.foundEol = false)
    (hquiet : ceol ∉ l.take (eol.length - 1 - b.buf.length)) :
    ∃ nc, loop .stuck (getlineRound signedChar eol ceol) (l.length + 1) b st =
      match scanDelim eol b.buf l with
      | some (p, rest) => .ok { buf := p, nc := nc, foundEol := true } { st with input := rest }
      | none => .ok { buf := b.buf ++ l, nc := nc, foundEol := false } { st with input := [] } := by
  induction l generalizing b st with
  | nil =>
    refine ⟨grown b, ?_⟩
    rw [loop_stop (round_eof hin)]
    simp only [scanDelim, List.append_nil]
    rw [← hin, ← hb]
  | cons c l ih =>
    have hnext : ceol ∉ l.take (eol.length - 1 - (b.buf ++ [c]).length) := by
      intro hmem
      rw [List.length_append, List.length_singleton, ← Nat.sub_sub] at hmem
      have hpos := List.length_pos_of_mem hmem
      rw [List.length_take] at hpos
      exact hquiet (mem_take_cons.mpr ⟨by omega, .inr hmem⟩)
    obtain ⟨nc, hloop⟩ := ih { buf := b.buf ++ [c], nc := grown b, foundEol := false }
      { st with input := l } rfl (hroom.next c false) rfl hnext
    simp only [scanDelim]
    by_cases hc : c = ceol
    · subst hc
      have hlen : eol.length ≤ b.buf.length + 1 := by
        by_contra hshort
        exact hquiet (mem_take_cons.mpr ⟨by omega, .inl rfl⟩)
      have hround := round_same hin hroom (by rw [hsame]; exact beq_self_eq_true c)
        (checkEol_suffix hlast hlen)
      by_cases hend : eol <:+ b.buf ++ [c]
      · refine ⟨grown b, ?_⟩
        simp only [hend, decide_true, Bool.not_true] at hround
        rw [List.length_cons, loop_stop hround, if_pos hend]
      · refine ⟨nc, ?_⟩
        simp only [hend, decide_false, Bool.not_false] at hround
        rw [List.length_cons, loop_more hround, hloop, if_neg hend]
        simp only [List.append_assoc, List.singleton_append]
    · have hend : ¬eol <:+ b.buf ++ [c] := by
        intro hsuffix
        exact hc (last_of_suffix hlast hsuffix)
      refine ⟨nc, ?_⟩
      have hother : sameByte signedChar c ceol = false := by
        rw [hsame]
        exact beq_false_of_ne hc
      rw [List.length_cons, loop_more (round_other hin hroom hother), hloop, if_neg hend]
      simp only [List.append_assoc, List.singleton_append]

theorem loop_early (hsame : ∀ c, sameByte signedChar c ceol = (c == ceol)) (l : Bytes)
    (b : LineBuffer) (st : ImportState σ) (hin : st.input = l) (hroom : Room b)
    (hearly : ceol ∈ l.take (eol.length - 1 - b.buf.length)) :
    ∃ st', loop .stuck (getlineRound signedChar eol ceol) (l.length + 1) b st =
      .error .undefined st' := by
  induction l generalizing b st with
  | nil => cases (List.take_nil ▸ hearly : ceol ∈ [])
  | cons c l ih =>
    obtain ⟨hpos, hearly⟩ := mem_take_cons.mp hearly
    by_cases hc : c = ceol
    · subst hc
      refine ⟨{ st with input := l }, ?_⟩
      have hcheck : checkEol (b.buf ++ [c]) eol (eol.length - 1) = .error .undefined :=
        checkEol_short (by omega)
      exact loop_error (round_fault hin hroom (by rw [hsame]; exact beq_self_eq_true c) hcheck) _
    · obtain heq | hmem := hearly
      · exact absurd heq.symm hc
      · have hother : sameByte signedChar c ceol = false := by
          rw [hsame]
          exact beq_false_of_ne hc
        rw [Nat.sub_sub, ← List.length_singleton (a := c), ← List.length_append] at hmem
        obtain ⟨st', hloop⟩ := ih { buf := b.buf ++ [c], nc := grown b, foundEol := false }
          { st with input := l } rfl (hroom.next c false) hmem
        exact ⟨st', by rw [List.length_cons, loop_more (round_other hin hroom hother), hloop]⟩

end Loops

/-- Whether `eol` ends in a byte that a signed `char` makes negative, which no result of
`fgetc` is equal to. -/
def Unseen (signedChar : Bool) (eol : Bytes) : Prop :=
  signedChar = true ∧ ∃ c ∈ eol.getLast?, 128 ≤ c

/-- The last byte of `eol` does not come earlier in a text than where `eol` can end. -/
def Quiet (eol l : Bytes) : Prop := ∀ c ∈ eol.getLast?, c ∉ l.take (eol.length - 1)

instance (signedChar : Bool) (eol : Bytes) : Decidable (Unseen signedChar eol) :=
  inferInstanceAs (Decidable (_ ∧ _))

instance (eol l : Bytes) : Decidable (Quiet eol l) :=
  inferInstanceAs (Decidable (∀ c ∈ eol.getLast?, c ∉ l.take (eol.length - 1)))

def lineText (a : Bytes) : Option Bytes := if cString a = [] then none else some (cString a)

theorem cString_terminated (a l : Bytes) : cString (a ++ 0 :: l) = cString a := by
  induction a with
  | nil => rfl
  | cons c a ih =>
    by_cases hc : c = 0
    · simp [cString, hc]
    · simp only [cString, List.cons_append] at ih ⊢
      rw [List.takeWhile_cons_of_pos (by simpa using hc), ih,
        List.takeWhile_cons_of_pos (by simpa using hc)]

theorem cString_of_mem {a : Bytes} (h : 0 ∈ a) (l : Bytes) : cString (a ++ l) = cString a := by
  obtain ⟨before, after, rfl⟩ := List.append_of_mem h
  rw [List.append_assoc, List.cons_append, cString_terminated, cString_terminated]

theorem cString_append {a : Bytes} (h : 0 ∉ a) (l : Bytes) : cString (a ++ l) = a ++ cString l := by
  rw [cString, List.takeWhile_append_of_pos]
  · rfl
  · intro c hc
    have hne : c ≠ 0 := fun hzero => h (hzero ▸ hc)
    simpa using hne

theorem cString_noNul {a : Bytes} (h : 0 ∉ a) : cString a = a := by
  have happ := cString_append h []
  rw [List.append_nil] at happ
  exact happ.trans (List.append_nil a)

theorem set_terminator {a eol : Bytes} (heol : eol ≠ []) :
    (a ++ eol).set ((a ++ eol).length - eol.length) 0 = a ++ 0 :: eol.tail := by
  cases eol with
  | nil => exact absurd rfl heol
  | cons c eol => simp

@[simp] theorem liftExcept_ok {α : Type} (a : α) (st : ImportState σ) :
    (liftExcept (.ok a : Except ImportFault α) : ImportM σ α) st = .ok a st := rfl

@[simp] theorem liftExcept_error {α : Type} (e : ImportFault) (st : ImportState σ) :
    (liftExcept (.error e : Except ImportFault α) : ImportM σ α) st = .error e st := rfl

section Getline

variable {signedChar : Bool} {eol : Bytes} {st : ImportState σ}

theorem room_first : Room { buf := [], nc := 1024, foundEol := false } :=
  ⟨Nat.zero_le _, by decide⟩

theorem sameByte_of_seen {ceol : UInt8} (hlast : eol.getLast? = some ceol)
    (hseen : ¬Unseen signedChar eol) (c : UInt8) : sameByte signedChar c ceol = (c == ceol) := by
  cases signedChar with
  | false => simp [sameByte]
  | true =>
    have hsmall : ¬128 ≤ ceol := fun h => hseen ⟨rfl, ceol, hlast, h⟩
    simp [sameByte, hsmall]

theorem sameByte_of_unseen {ceol : UInt8} (hlast : eol.getLast? = some ceol)
    (hunseen : Unseen signedChar eol) (c : UInt8) : sameByte signedChar c ceol = false := by
  obtain ⟨hsigned, d, hd, hbig⟩ := hunseen
  rw [hlast] at hd
  cases hd
  simp [sameByte, hsigned, hbig]

theorem finishLine_terminated (a l : Bytes) : finishLine (a ++ 0 :: l) = .ok (lineText a) := by
  have hnil : a ++ 0 :: l ≠ [] := by simp
  have hzero : 0 ∈ a ++ 0 :: l := by simp
  simp only [finishLine, hnil, readString, hzero, cString_terminated, lineText, if_false, if_true]
  rfl

theorem getline_of_loop {ceol : UInt8} (hlast : eol.getLast? = some ceol) {b : LineBuffer}
    {st' : ImportState σ}
    (hloop : loop .stuck (getlineRound signedChar eol ceol) (st.input.length + 1)
      { buf := [], nc := 1024, foundEol := false } st = .ok b st') :
    getline signedChar eol st =
      (liftExcept (finishLine (if b.foundEol then b.buf.set (b.buf.length - eol.length) 0
        else b.buf)) : ImportM σ (Option Bytes)) st' := by
  simp only [getline, hlast]
  rw [bind_ok (get_apply st), bind_ok hloop]

theorem getline_line (heol : eol ≠ []) (hseen : ¬Unseen signedChar eol)
    (hquiet : Quiet eol st.input) {a rest : Bytes} (hfirst : firstLine eol st.input = some (a, rest)) :
    getline signedChar eol st = .ok (lineText a) { st with input := rest } := by
  have hlast := List.getLast?_eq_some_getLast heol
  obtain ⟨nc, hloop⟩ := loop_line (sameByte_of_seen hlast hseen) hlast st.input
    { buf := [], nc := 1024, foundEol := false } st rfl room_first rfl (hquiet _ hlast)
  rw [scanDelim_of_firstLine hfirst] at hloop
  rw [getline_of_loop hlast hloop]
  simp only [if_true, set_terminator heol, finishLine_terminated, liftExcept_ok]

theorem getline_rest (heol : eol ≠ []) (hseen : ¬Unseen signedChar eol)
    (hquiet : Quiet eol st.input) (hfirst : firstLine eol st.input = none) :
    getline signedChar eol st =
      (liftExcept (finishLine st.input) : ImportM σ (Option Bytes)) { st with input := [] } := by
  have hlast := List.getLast?_eq_some_getLast heol
  obtain ⟨nc, hloop⟩ := loop_line (sameByte_of_seen hlast hseen) hlast st.input
    { buf := [], nc := 1024, foundEol := false } st rfl room_first rfl (hquiet _ hlast)
  rw [scanDelim_of_none hfirst] at hloop
  rw [getline_of_loop hlast hloop]
  simp

theorem getline_unseen (st : ImportState σ) (heol : eol ≠ []) (hunseen : Unseen signedChar eol) :
    getline signedChar eol st =
      (liftExcept (finishLine st.input) : ImportM σ (Option Bytes)) { st with input := [] } := by
  have hlast := List.getLast?_eq_some_getLast heol
  obtain ⟨nc, hloop⟩ := loop_unseen eol (sameByte_of_unseen hlast hunseen) st.input
    { buf := [], nc := 1024, foundEol := false } st rfl room_first rfl
  rw [getline_of_loop hlast hloop]
  simp

theorem mem_of_not_quiet {l : Bytes} (heol : eol ≠ []) (hearly : ¬Quiet eol l) :
    eol.getLast heol ∈ l.take (eol.length - 1) := by
  by_contra hnot
  refine hearly fun c hc => ?_
  rw [List.getLast?_eq_some_getLast heol] at hc
  cases hc
  exact hnot

theorem getline_early (heol : eol ≠ []) (hseen : ¬Unseen signedChar eol)
    (hearly : ¬Quiet eol st.input) :
    ∃ st', getline signedChar eol st = .error .undefined st' := by
  have hlast := List.getLast?_eq_some_getLast heol
  obtain ⟨st', hloop⟩ := loop_early (sameByte_of_seen hlast hseen) st.input
    { buf := [], nc := 1024, foundEol := false } st rfl room_first (mem_of_not_quiet heol hearly)
  exact ⟨st', by simp [getline, hlast, hloop]⟩

end Getline

end RSQLCipher.ImportLines
