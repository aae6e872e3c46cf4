import Mathlib.Data.List.Infix

namespace RSQLCipher.Library

variable {α : Type}

/-- A text as a scan divides it: the fields, of which there is at least one, and what is
left where the scan stops. -/
structure Fields (α : Type) where
  first : List α
  others : List (List α)
  rest : List α

def Fields.all (f : Fields α) : List (List α) := f.first :: f.others

def withRest (rest : List α) : List α → List (List α) → List (List α)
  | a, [] => [a ++ rest]
  | a, b :: l => a :: withRest rest b l

/-- The fields, the last of which goes on to the end of the text. -/
def Fields.prolonged (f : Fields α) : List (List α) := withRest f.rest f.first f.others

theorem length_withRest (rest a : List α) (l : List (List α)) :
    (withRest rest a l).length = l.length + 1 := by
  induction l generalizing a with
  | nil => rfl
  | cons b l ih => simp only [withRest, List.length_cons, ih]

theorem withRest_nil (a : List α) (l : List (List α)) : withRest [] a l = a :: l := by
  induction l generalizing a with
  | nil => simp only [withRest, List.append_nil]
  | cons b l ih => simp only [withRest, ih]

theorem withRest_cons (c : α) (rest a : List α) (l : List (List α)) :
    ∃ b k, withRest rest a l = b :: k ∧ withRest rest (c :: a) l = (c :: b) :: k := by
  cases l with
  | nil => exact ⟨a ++ rest, [], rfl, rfl⟩
  | cons b l => exact ⟨a, withRest rest b l, rfl, rfl⟩

@[simp] theorem length_prolonged (f : Fields α) : f.prolonged.length = f.all.length :=
  length_withRest f.rest f.first f.others

theorem prolonged_of_rest {f : Fields α} (h : f.rest = []) : f.prolonged = f.all := by
  rw [Fields.prolonged, h, withRest_nil]
  rfl

theorem prolonged_separator (f : Fields α) :
    Fields.prolonged { first := [], others := f.all, rest := f.rest } = [] :: f.prolonged := rfl

theorem prolonged_ne_nil (f : Fields α) : f.prolonged ≠ [] := by
  rw [← List.length_pos_iff, length_prolonged]
  exact Nat.succ_pos _

/-- An element put before the text goes to the first field. -/
theorem prolonged_cons (c : α) (f : Fields α) :
    ∃ b k, f.prolonged = b :: k ∧
      Fields.prolonged { first := c :: f.first, others := f.others, rest := f.rest } =
        (c :: b) :: k :=
  withRest_cons c f.rest f.first f.others

theorem mem_intercalate_of_mem {d a : List α} {l : List (List α)} {c : α} (ha : a ∈ l)
    (hc : c ∈ a) : c ∈ d.intercalate l := by
  induction l with
  | nil => cases ha
  | cons b l ih =>
    cases l with
    | nil =>
      obtain rfl := List.mem_singleton.mp ha
      rwa [List.intercalate_singleton]
    | cons b' l =>
      rw [List.intercalate_cons_cons]
      obtain rfl | ha := List.mem_cons.mp ha
      · exact List.mem_append_left _ (List.mem_append_left _ hc)
      · exact List.mem_append_right _ (ih ha)

theorem of_mem_intercalate {d : List α} {l : List (List α)} {c : α} (h : c ∈ d.intercalate l) :
    c ∈ d ∨ ∃ a ∈ l, c ∈ a := by
  induction l with
  | nil => cases h
  | cons a l ih =>
    cases l with
    | nil =>
      rw [List.intercalate_singleton] at h
      exact .inr ⟨a, List.mem_cons_self, h⟩
    | cons b l =>
      rw [List.intercalate_cons_cons, List.mem_append, List.mem_append] at h
      obtain (ha | hd) | hl := h
      · exact .inr ⟨a, List.mem_cons_self, ha⟩
      · exact .inl hd
      · obtain hd | ⟨a', ha', hc⟩ := ih hl
        · exact .inl hd
        · exact .inr ⟨a', List.mem_cons_of_mem a ha', hc⟩

variable [DecidableEq α]

/-- Divides a text at the separators met from the left, none of which overlaps the one
before it. A stop element ends the scan unless it lies in a separator. The number is that
of the elements to pass first. -/
def splitFields (stop : α → Bool) (d : List α) : Nat → List α → Fields α
  | _, [] => { first := [], others := [], rest := [] }
  | skip + 1, _ :: l => splitFields stop d skip l
  | 0, c :: l =>
    if stop c then { first := [], others := [], rest := c :: l }
    else if d.isPrefixOf (c :: l) then
      let f := splitFields stop d (d.length - 1) l
      { first := [], others := f.all, rest := f.rest }
    else
      let f := splitFields stop d 0 l
      { first := c :: f.first, others := f.others, rest := f.rest }

section Split

variable {stop : α → Bool} {d l : List α} {c : α}

@[simp] theorem splitFields_nil (stop : α → Bool) (d : List α) (skip : Nat) :
    splitFields stop d skip [] = { first := [], others := [], rest := [] } := by
  cases skip with
  | zero => rfl
  | succ skip => rfl

@[simp] theorem splitFields_skip (stop : α → Bool) (d : List α) (skip : Nat) (c : α) (l : List α) :
    splitFields stop d (skip + 1) (c :: l) = splitFields stop d skip l := rfl

theorem splitFields_stop (hc : stop c = true) :
    splitFields stop d 0 (c :: l) = { first := [], others := [], rest := c :: l } := by
  rw [splitFields, if_pos hc]

theorem splitFields_separator (hc : stop c = false) (hd : d <+: c :: l) :
    splitFields stop d 0 (c :: l) =
      { first := [], others := (splitFields stop d (d.length - 1) l).all,
        rest := (splitFields stop d (d.length - 1) l).rest } := by
  rw [splitFields, if_neg (by simp [hc]), if_pos (List.isPrefixOf_iff_prefix.mpr hd)]

theorem splitFields_other (hc : stop c = false) (hd : ¬d <+: c :: l) :
    splitFields stop d 0 (c :: l) =
      { first := c :: (splitFields stop d 0 l).first, others := (splitFields stop d 0 l).others,
        rest := (splitFields stop d 0 l).rest } := by
  rw [splitFields, if_neg (by simp [hc]), if_neg (mt List.isPrefixOf_iff_prefix.mp hd)]

omit [DecidableEq α] in
/-- A separator is its first element and the elements passed after it. -/
theorem separator_cons (hne : d ≠ []) (hd : d <+: c :: l) :
    d = c :: l.take (d.length - 1) ∧ d.length - 1 ≤ l.length := by
  cases d with
  | nil => exact absurd rfl hne
  | cons e d =>
    obtain ⟨rfl, hprefix⟩ := List.cons_prefix_cons.mp hd
    have htake := List.prefix_iff_eq_take.mp hprefix
    exact ⟨congrArg (List.cons e) htake, hprefix.length_le⟩

/-- Joined by the separator, the fields and the rest give the text back. -/
theorem intercalate_prolonged (hne : d ≠ []) (stop : α → Bool) (l : List α) (skip : Nat)
    (hskip : skip ≤ l.length) :
    d.intercalate (splitFields stop d skip l).prolonged = l.drop skip := by
  induction l generalizing skip with
  | nil =>
    obtain rfl := Nat.le_zero.mp hskip
    simp [Fields.prolonged, withRest]
  | cons c l ih =>
    cases skip with
    | succ skip => exact ih skip (Nat.le_of_succ_le_succ hskip)
    | zero =>
      cases hc : stop c with
      | true => simp [splitFields_stop hc, Fields.prolonged, withRest]
      | false =>
        by_cases hd : d <+: c :: l
        · obtain ⟨heq, hle⟩ := separator_cons hne hd
          have hjoin := ih (d.length - 1) hle
          rw [splitFields_separator hc hd, prolonged_separator,
            List.intercalate_cons_of_ne_nil (prolonged_ne_nil _), hjoin, List.nil_append]
          calc d ++ l.drop (d.length - 1)
              = (c :: l.take (d.length - 1)) ++ l.drop (d.length - 1) := by rw [← heq]
            _ = c :: l := by rw [List.cons_append, List.take_append_drop]
        · have hjoin := ih 0 (Nat.zero_le _)
          obtain ⟨b, k, hb, hcb⟩ := prolonged_cons c (splitFields stop d 0 l)
          rw [hb] at hjoin
          rw [splitFields_other hc hd, hcb, List.intercalate_cons_cons_left, hjoin]
          rfl

/-- Without stop elements the whole text is divided. -/
theorem splitFields_quiet (d : List α) (hquiet : ∀ c ∈ l, stop c = false) (skip : Nat) :
    splitFields stop d skip l = splitFields (fun _ => false) d skip l := by
  induction l generalizing skip with
  | nil => simp
  | cons c l ih =>
    have hc := hquiet c List.mem_cons_self
    have hnext := ih fun c hc => hquiet c (List.mem_cons_of_mem _ hc)
    cases skip with
    | succ skip => exact hnext skip
    | zero =>
      by_cases hd : d <+: c :: l
      · rw [splitFields_separator hc hd, splitFields_separator rfl hd, hnext]
      · rw [splitFields_other hc hd, splitFields_other rfl hd, hnext]

theorem splitFields_never_rest (d l : List α) (skip : Nat) :
    (splitFields (fun _ => false) d skip l).rest = [] := by
  induction l generalizing skip with
  | nil => simp
  | cons c l ih =>
    cases skip with
    | succ skip => exact ih skip
    | zero =>
      by_cases hd : d <+: c :: l
      · rw [splitFields_separator rfl hd]
        exact ih _
      · rw [splitFields_other rfl hd]
        exact ih _

end Split

/-- The fields of a whole text. -/
def textFields (d l : List α) : List (List α) := (splitFields (fun _ => false) d 0 l).all

theorem intercalate_textFields {d : List α} (hne : d ≠ []) (l : List α) :
    d.intercalate (textFields d l) = l := by
  have hjoin := intercalate_prolonged hne (fun _ => false) l 0 (Nat.zero_le _)
  rwa [prolonged_of_rest (splitFields_never_rest d l 0)] at hjoin

/-- A separator of one element divides as `List.splitOn` does. -/
theorem textFields_singleton (x : α) (l : List α) : textFields [x] l = l.splitOn x := by
  induction l with
  | nil => rfl
  | cons c l ih =>
    rw [List.splitOn_cons_eq_if_modifyHead, ← ih]
    by_cases hc : c = x
    · subst hc
      rw [textFields, splitFields_separator rfl (by simp), if_pos (beq_self_eq_true c)]
      rfl
    · rw [textFields, splitFields_other rfl (by simpa using Ne.symm hc), if_neg (by simpa using hc)]
      rfl

end RSQLCipher.Library
