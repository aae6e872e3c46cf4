import Mathlib.Data.List.Infix

namespace RSQLCipher.Library

variable {α : Type} [DecidableEq α]

/-- Moves elements to the list seen so far until that ends with the delimiter. -/
def scanDelim (d : List α) : List α → List α → Option (List α × List α)
  | _, [] => none
  | seen, c :: rest =>
    if d <:+ seen ++ [c] then some (seen ++ [c], rest) else scanDelim d (seen ++ [c]) rest

def firstLine (d l : List α) : Option (List α × List α) :=
  (scanDelim d [] l).map fun p => (p.1.take (p.1.length - d.length), p.2)

/-- The texts that delimiters end, at most some number of them, and the remaining text. -/
def splitLines (d : List α) : Nat → List α → List (List α) × List α
  | 0, l => ([], l)
  | n + 1, l =>
    match firstLine d l with
    | none => ([], l)
    | some (a, rest) => (a :: (splitLines d n rest).1, (splitLines d n rest).2)

def lines (d l : List α) : List (List α) × List α := splitLines d l.length l

theorem scanDelim_append {d seen l p rest : List α} (h : scanDelim d seen l = some (p, rest)) :
    p ++ rest = seen ++ l ∧ d <:+ p ∧ seen <+: p ∧ seen ≠ p := by
  induction l generalizing seen with
  | nil => cases h
  | cons c l ih =>
    rw [scanDelim] at h
    split at h
    · rename_i hend
      cases h
      exact ⟨by simp, hend, List.prefix_append _ _, by simp⟩
    · obtain ⟨happ, hsuffix, hprefix, -⟩ := ih h
      refine ⟨by simpa using happ, hsuffix, (List.prefix_append seen [c]).trans hprefix, ?_⟩
      rintro rfl
      have hlen := hprefix.length_le
      rw [List.length_append, List.length_singleton] at hlen
      omega

theorem scanDelim_none {d seen l : List α} (h : scanDelim d seen l = none) (k : Nat)
    (hk : k < l.length) : ¬d <:+ seen ++ l.take (k + 1) := by
  induction l generalizing seen k with
  | nil => exact absurd hk (Nat.not_lt_zero k)
  | cons c l ih =>
    rw [scanDelim] at h
    split at h
    · cases h
    · rename_i hend
      cases k with
      | zero => simpa using hend
      | succ k =>
        have hnext := ih h k (by simpa using hk)
        simpa using hnext

theorem firstLine_append {d l a rest : List α} (h : firstLine d l = some (a, rest)) :
    l = a ++ d ++ rest := by
  simp only [firstLine, Option.map_eq_some_iff, Prod.mk.injEq, Prod.exists] at h
  obtain ⟨p, rest', hscan, rfl, rfl⟩ := h
  obtain ⟨happ, ⟨text, rfl⟩, -, -⟩ := scanDelim_append hscan
  rw [List.length_append, Nat.add_sub_cancel, List.take_left]
  exact happ.symm

theorem scanDelim_of_firstLine {d l a rest : List α} (h : firstLine d l = some (a, rest)) :
    scanDelim d [] l = some (a ++ d, rest) := by
  simp only [firstLine, Option.map_eq_some_iff, Prod.mk.injEq, Prod.exists] at h
  obtain ⟨p, rest', hscan, rfl, rfl⟩ := h
  obtain ⟨-, ⟨text, rfl⟩, -, -⟩ := scanDelim_append hscan
  rw [List.length_append, Nat.add_sub_cancel, List.take_left]
  exact hscan

theorem scanDelim_of_none {d l : List α} (h : firstLine d l = none) : scanDelim d [] l = none := by
  simpa [firstLine] using h

theorem splitLines_length {d : List α} (hd : d ≠ []) (n m : Nat) (l : List α) (hn : l.length ≤ n)
    (hm : l.length ≤ m) : splitLines d n l = splitLines d m l := by
  induction n generalizing l m with
  | zero =>
    obtain rfl := List.length_eq_zero_iff.mp (Nat.le_zero.mp hn)
    cases m with
    | zero => rfl
    | succ m => rfl
  | succ n ih =>
    cases m with
    | zero =>
      obtain rfl := List.length_eq_zero_iff.mp (Nat.le_zero.mp hm)
      rfl
    | succ m =>
      cases hfirst : firstLine d l with
      | none => simp only [splitLines, hfirst]
      | some p =>
        obtain ⟨a, rest⟩ := p
        have hlen := congrArg List.length (firstLine_append hfirst)
        have hpos := List.length_pos_iff.mpr hd
        simp only [List.length_append] at hlen
        simp only [splitLines, hfirst]
        rw [ih m rest (by omega) (by omega)]

theorem lines_none {d l : List α} (h : firstLine d l = none) : lines d l = ([], l) := by
  unfold lines
  cases hlen : l.length with
  | zero => rfl
  | succ n => simp only [splitLines, h]

theorem lines_some {d l a rest : List α} (hd : d ≠ []) (h : firstLine d l = some (a, rest)) :
    lines d l = (a :: (lines d rest).1, (lines d rest).2) := by
  have hlen := congrArg List.length (firstLine_append h)
  have hpos := List.length_pos_iff.mpr hd
  simp only [List.length_append] at hlen
  unfold lines
  obtain ⟨n, hn⟩ : ∃ n, l.length = n + 1 := ⟨l.length - 1, by omega⟩
  rw [hn]
  simp only [splitLines, h]
  rw [splitLines_length hd n rest.length rest (by omega) le_rfl]

theorem firstLine_of_suffix {d l : List α} (hd : d ≠ []) (h : d <:+ l) :
    firstLine d l ≠ none := by
  intro hnone
  have hl : l.length ≠ 0 := by
    have hle := h.length_le
    have hpos := List.length_pos_iff.mpr hd
    omega
  have hend := scanDelim_none (scanDelim_of_none hnone) (l.length - 1) (by omega)
  rw [Nat.sub_add_cancel (Nat.pos_of_ne_zero hl), List.take_length] at hend
  exact hend h

theorem firstLine_short {d l : List α} (h : l.length < d.length) : firstLine d l = none := by
  cases hfirst : firstLine d l with
  | none => rfl
  | some p =>
    obtain ⟨a, rest⟩ := p
    have hlen := congrArg List.length (firstLine_append hfirst)
    simp only [List.length_append] at hlen
    omega

/-- The end of a delimiter, without the delimiter being whole. -/
def IsTail (d l : List α) : Prop := l <:+ d ∧ l.length < d.length

/-- What a text that ends with the delimiter has behind its last line. -/
theorem isTail_lines {d : List α} (hd : d ≠ []) (l : List α) (h : d <:+ l ∨ IsTail d l) :
    IsTail d (lines d l).2 := by
  induction hn : l.length using Nat.strongRecOn generalizing l with
  | ind n ih =>
    obtain h | h := h
    · cases hfirst : firstLine d l with
      | none => exact absurd hfirst (firstLine_of_suffix hd h)
      | some p =>
        obtain ⟨a, rest⟩ := p
        have happ := firstLine_append hfirst
        have hpos := List.length_pos_iff.mpr hd
        have hlen := congrArg List.length happ
        simp only [List.length_append] at hlen
        rw [lines_some hd hfirst]
        have hrest : rest <:+ l := by
          rw [happ]
          exact List.suffix_append _ _
        refine ih rest.length (by omega) rest ?_ rfl
        by_cases hle : d.length ≤ rest.length
        · exact .inl (List.suffix_of_suffix_length_le h hrest hle)
        · exact .inr ⟨List.suffix_of_suffix_length_le hrest h (by omega), by omega⟩
    · rw [lines_none (firstLine_short h.2)]
      exact h

/-- A delimiter of one element ends the text up to where it first is. -/
theorem firstLine_singleton {x : α} {a : List α} (ha : x ∉ a) (rest : List α) :
    firstLine [x] (a ++ x :: rest) = some (a, rest) := by
  have hscan : ∀ seen, scanDelim [x] seen (a ++ x :: rest) = some (seen ++ a ++ [x], rest) := by
    induction a with
    | nil =>
      intro seen
      rw [List.nil_append, scanDelim, if_pos (List.suffix_append seen [x]), List.append_nil]
    | cons c a ih =>
      intro seen
      have hc : ¬[x] <:+ seen ++ [c] := by
        intro h
        have hsuffix := List.suffix_of_suffix_length_le h (List.suffix_append seen [c]) le_rfl
        have heq := hsuffix.eq_of_length rfl
        exact ha (List.mem_cons.mpr (.inl (List.cons.inj heq).1))
      rw [List.cons_append, scanDelim, if_neg hc, ih (fun h => ha (List.mem_cons_of_mem c h))]
      simp
  simp [firstLine, hscan]

/-- Texts that each end with the delimiter are the lines of what they make together. -/
theorem lines_ended {x : α} {texts : List (List α)} (h : ∀ a ∈ texts, x ∉ a) :
    lines [x] (texts.flatMap fun a => a ++ [x]) = (texts, []) := by
  induction texts with
  | nil => rfl
  | cons a texts ih =>
    have hfirst := firstLine_singleton (h a List.mem_cons_self)
      (texts.flatMap fun a => a ++ [x])
    rw [List.flatMap_cons, List.append_assoc, List.singleton_append,
      lines_some (List.cons_ne_nil x []) hfirst, ih fun a ha => h a (List.mem_cons_of_mem _ ha)]

end RSQLCipher.Library
