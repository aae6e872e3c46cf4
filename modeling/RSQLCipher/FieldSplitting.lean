import RSQLCipher.ImportLines
import RSQLCipher.Library.Fields

namespace RSQLCipher.FieldSplitting

open RSQLCipher.Library RSQLCipher.Values RSQLCipher.ImportFile RSQLCipher.ImportLines

/-- The bytes at which the loop over a line ends. -/
def lineEnd (c : UInt8) : Bool := c == 10 || c == 13

def scanned (line : Bytes) : Bytes := line.takeWhile fun c => !lineEnd c

/-- The C strings that the pointers in `azCol` point to. -/
def azTexts (s : Split) : List Bytes := s.azCol.map fun offset => cString (s.line.drop offset)

/-- What is bound for a field: a text that begins with the marker stands for `NULL`. -/
def offered (text : Bytes) : Option Bytes := if [92, 78].isPrefixOf text then none else some text

theorem rowValues_eq (s : Split) : rowValues s = (azTexts s).map offered := by
  simp only [rowValues, azTexts, List.map_map]
  rfl

theorem lineEnd_iff {c : UInt8} : lineEnd c = true ↔ c = 10 ∨ c = 13 := by simp [lineEnd]

section Loop

variable {separator l : Bytes} {c : UInt8} {nCol z : Nat} {s : Split}

theorem splitLoop_skip (jump : Nat) :
    splitLoop separator nCol (c :: l) (jump + 1) z s = splitLoop separator nCol l jump (z + 1) s :=
  rfl

theorem splitLoop_stop (hc : lineEnd c = true) : splitLoop separator nCol (c :: l) 0 z s = s := by
  rw [splitLoop, if_pos (lineEnd_iff.mp hc)]

theorem splitLoop_other (hc : lineEnd c = false) (hd : ¬separator <+: c :: l) :
    splitLoop separator nCol (c :: l) 0 z s = splitLoop separator nCol l 0 (z + 1) s := by
  have hstop : ¬(c = 10 ∨ c = 13) := by simp [← lineEnd_iff, hc]
  rw [splitLoop, if_neg hstop, if_neg (mt List.isPrefixOf_iff_prefix.mp hd)]

theorem splitLoop_separator (hc : lineEnd c = false) (hd : separator <+: c :: l)
    (hi : s.i + 1 < nCol) :
    splitLoop separator nCol (c :: l) 0 z s =
      splitLoop separator nCol l (separator.length - 1) (z + 1)
        { line := s.line.set z 0, azCol := s.azCol ++ [z + separator.length], i := s.i + 1 } := by
  have hstop : ¬(c = 10 ∨ c = 13) := by simp [← lineEnd_iff, hc]
  rw [splitLoop, if_neg hstop, if_pos (List.isPrefixOf_iff_prefix.mpr hd), if_pos hi]

theorem splitLoop_extra (hc : lineEnd c = false) (hd : separator <+: c :: l)
    (hi : ¬s.i + 1 < nCol) :
    splitLoop separator nCol (c :: l) 0 z s =
      splitLoop separator nCol l 0 (z + 1) { s with line := s.line.set z 0, i := s.i + 1 } := by
  have hstop : ¬(c = 10 ∨ c = 13) := by simp [← lineEnd_iff, hc]
  rw [splitLoop, if_neg hstop, if_pos (List.isPrefixOf_iff_prefix.mpr hd), if_neg hi]

theorem splitLoop_mono (separator : Bytes) (nCol : Nat) (l : Bytes) (jump z : Nat) (s : Split) :
    s.i ≤ (splitLoop separator nCol l jump z s).i := by
  induction l generalizing jump z s with
  | nil => cases jump <;> exact le_rfl
  | cons c l ih =>
    cases jump with
    | succ jump => exact ih jump (z + 1) s
    | zero =>
      cases hc : lineEnd c with
      | true => rw [splitLoop_stop hc]
      | false =>
        by_cases hd : separator <+: c :: l
        · by_cases hi : s.i + 1 < nCol
          · rw [splitLoop_separator hc hd hi]
            exact Nat.le_of_succ_le (ih (separator.length - 1) (z + 1)
              { line := s.line.set z 0, azCol := s.azCol ++ [z + separator.length], i := s.i + 1 })
          · rw [splitLoop_extra hc hd hi]
            exact Nat.le_of_succ_le (ih 0 (z + 1) { s with line := s.line.set z 0, i := s.i + 1 })
        · rw [splitLoop_other hc hd]
          exact ih 0 (z + 1) s

/-- With more fields than columns, the loop counts at least one separator too many. -/
theorem splitLoop_many (separator : Bytes) (nCol : Nat) (l : Bytes) (jump z : Nat) (s : Split)
    (hmany : nCol ≤ s.i + (splitFields lineEnd separator jump l).others.length) :
    nCol ≤ (splitLoop separator nCol l jump z s).i := by
  induction l generalizing jump z s with
  | nil =>
    rw [splitFields_nil] at hmany
    exact hmany.trans (splitLoop_mono separator nCol [] jump z s)
  | cons c l ih =>
    cases jump with
    | succ jump => exact ih jump (z + 1) s hmany
    | zero =>
      cases hc : lineEnd c with
      | true =>
        rw [splitFields_stop hc] at hmany
        rw [splitLoop_stop hc]
        exact hmany
      | false =>
        by_cases hd : separator <+: c :: l
        · by_cases hi : s.i + 1 < nCol
          · rw [splitLoop_separator hc hd hi]
            apply ih
            rw [splitFields_separator hc hd] at hmany
            simp only [Fields.all, List.length_cons] at hmany
            dsimp only
            omega
          · rw [splitLoop_extra hc hd hi]
            have hmono := splitLoop_mono separator nCol l 0 (z + 1)
              { s with line := s.line.set z 0, i := s.i + 1 }
            exact (Nat.le_of_not_lt hi).trans hmono
        · rw [splitFields_other hc hd] at hmany
          rw [splitLoop_other hc hd]
          exact ih 0 (z + 1) s hmany

/-- What the loop does from some offset on: behind what it has passed, `later` holds the fields
to come, and the new pointers point to all of them but the first. -/
def Points (separator : Bytes) (nCol : Nat) (before l : Bytes) (jump : Nat) (s : Split) : Prop :=
  ∃ offsets later,
    splitLoop separator nCol l jump before.length s =
      { line := before ++ l.take jump ++ later, azCol := s.azCol ++ offsets,
        i := s.i + (splitFields lineEnd separator jump l).others.length } ∧
    cString later :: (offsets.map fun offset =>
        cString ((before ++ l.take jump ++ later).drop offset)) =
      (splitFields lineEnd separator jump l).prolonged

variable {before : Bytes}

theorem points_nil (hline : s.line = before) : Points separator nCol before [] 0 s := by
  refine ⟨[], [], ?_, rfl⟩
  simp [splitLoop, ← hline]

theorem points_skip {jump : Nat} (h : Points separator nCol (before ++ [c]) l jump s) :
    Points separator nCol before (c :: l) (jump + 1) s := by
  obtain ⟨offsets, later, hloop, htexts⟩ := h
  refine ⟨offsets, later, ?_, ?_⟩
  · simpa [splitLoop_skip] using hloop
  · simpa using htexts

theorem points_stop (hc : lineEnd c = true) (hnul : 0 ∉ c :: l) (hline : s.line = before ++ c :: l) :
    Points separator nCol before (c :: l) 0 s := by
  refine ⟨[], c :: l, ?_, ?_⟩
  · simp [splitLoop_stop hc, splitFields_stop hc, ← hline]
  · simp [splitFields_stop hc, Fields.prolonged, withRest, cString_noNul hnul]

/-- At a separator the field so far ends, and there is a new pointer. -/
theorem points_separator (hne : separator ≠ []) (hc : lineEnd c = false) (hd : separator <+: c :: l)
    (hi : s.i + 1 < nCol) (h : Points separator nCol (before ++ [0]) l (separator.length - 1)
      { line := s.line.set before.length 0, azCol := s.azCol ++ [before.length + separator.length],
        i := s.i + 1 }) :
    Points separator nCol before (c :: l) 0 s := by
  obtain ⟨offsets, later, hloop, htexts⟩ := h
  obtain ⟨-, hle⟩ := separator_cons hne hd
  have hpos := List.length_pos_iff.mpr hne
  refine ⟨(before.length + separator.length) :: offsets,
    0 :: (l.take (separator.length - 1) ++ later), ?_, ?_⟩
  · rw [List.length_append, List.length_singleton] at hloop
    rw [splitLoop_separator hc hd hi, hloop, splitFields_separator hc hd]
    simp [Fields.all]
    omega
  · rw [splitFields_separator hc hd, prolonged_separator, ← htexts]
    have hat : (before ++ [0] ++ l.take (separator.length - 1) ++ later).drop
        (before.length + separator.length) = later := by
      apply List.drop_left'
      simp
      omega
    simp only [List.take_zero, List.append_nil, List.append_assoc, List.cons_append,
      List.nil_append, List.map_cons] at hat ⊢
    rw [hat]
    rfl

theorem points_other (hc : lineEnd c = false) (hd : ¬separator <+: c :: l) (hc0 : c ≠ 0)
    (h : Points separator nCol (before ++ [c]) l 0 s) :
    Points separator nCol before (c :: l) 0 s := by
  obtain ⟨offsets, later, hloop, htexts⟩ := h
  refine ⟨offsets, c :: later, ?_, ?_⟩
  · rw [List.length_append, List.length_singleton] at hloop
    rw [splitLoop_other hc hd, hloop, splitFields_other hc hd]
    simp
  · obtain ⟨b, k, hb, hcb⟩ := prolonged_cons c (splitFields lineEnd separator 0 l)
    rw [hb] at htexts
    rw [splitFields_other hc hd, hcb]
    have hhead : cString (c :: later) = c :: cString later := by
      simp [cString, hc0]
    simp only [List.take_zero, List.append_nil, List.append_assoc, List.singleton_append,
      List.cons.injEq] at htexts ⊢
    exact ⟨by rw [hhead, htexts.1], htexts.2⟩

/-- With no more fields than columns the loop points to all fields. -/
theorem splitLoop_fields (hne : separator ≠ []) (nCol : Nat) (l : Bytes) (hnul : 0 ∉ l)
    (jump : Nat) (hjump : jump ≤ l.length) (before : Bytes) (s : Split)
    (hline : s.line = before ++ l)
    (hfew : s.i + (splitFields lineEnd separator jump l).others.length < nCol) :
    Points separator nCol before l jump s := by
  induction l generalizing jump before s with
  | nil =>
    obtain rfl := Nat.le_zero.mp hjump
    exact points_nil (hline.trans (List.append_nil before))
  | cons c l ih =>
    have hc0 : c ≠ 0 := fun h => hnul (h ▸ List.mem_cons_self)
    have hnul' : 0 ∉ l := fun h => hnul (List.mem_cons_of_mem c h)
    have hnext : s.line = before ++ [c] ++ l := by simpa using hline
    cases jump with
    | succ jump =>
      exact points_skip (ih hnul' jump (Nat.le_of_succ_le_succ hjump) (before ++ [c]) s hnext hfew)
    | zero =>
      cases hc : lineEnd c with
      | true => exact points_stop hc hnul hline
      | false =>
        by_cases hd : separator <+: c :: l
        · rw [splitFields_separator hc hd] at hfew
          simp only [Fields.all, List.length_cons] at hfew
          have hset : s.line.set before.length 0 = (before ++ [0]) ++ l := by
            rw [hline]
            simp
          apply points_separator hne hc hd (by omega)
          apply ih hnul' _ (separator_cons hne hd).2 _ _ hset
          dsimp only
          omega
        · rw [splitFields_other hc hd] at hfew
          exact points_other hc hd hc0 (ih hnul' 0 (Nat.zero_le _) (before ++ [c]) s hnext hfew)

end Loop

/-- The fields of a line up to the first line break that is not part of a separator. -/
def fieldsPast (separator line : Bytes) : List (List UInt8) :=
  (splitFields lineEnd separator 0 line).all

def fieldsProlonged (separator line : Bytes) : List (List UInt8) :=
  (splitFields lineEnd separator 0 line).prolonged

section Split

variable {separator line : Bytes} {nCol : Nat}

theorem splitLine_few (hne : separator ≠ []) (hnul : 0 ∉ line)
    (hfew : (fieldsPast separator line).length ≤ nCol) :
    (splitLine separator nCol line).i + 1 = (fieldsPast separator line).length ∧
      azTexts (splitLine separator nCol line) = fieldsProlonged separator line := by
  obtain ⟨offsets, later, hloop, htexts⟩ := splitLoop_fields hne nCol line hnul 0
    (Nat.zero_le _) [] { line := line, azCol := [0], i := 0 } rfl (by
      simp only [fieldsPast, Fields.all, List.length_cons] at hfew
      dsimp only
      omega)
  rw [List.length_nil] at hloop
  simp only [List.nil_append, List.take_zero, List.singleton_append, Nat.zero_add] at hloop htexts
  rw [splitLine, hloop]
  exact ⟨rfl, htexts⟩

theorem splitLine_many (hmany : nCol < (fieldsPast separator line).length) :
    nCol ≤ (splitLine separator nCol line).i := by
  apply splitLoop_many
  simp only [fieldsPast, Fields.all, List.length_cons] at hmany
  dsimp only
  omega

theorem splitRow_ok_iff (zFile : String) (lineno : Nat) (hmax : nCol ≤ intMax) {row : TextRow} :
    splitRow zFile separator nCol lineno line = .ok row ↔
      (splitLine separator nCol line).i + 1 = nCol ∧
        row = rowValues (splitLine separator nCol line) := by
  simp only [splitRow]
  constructor
  · intro h
    split at h
    · cases h
    · split at h
      · cases h
      · rename_i heq
        cases h
        exact ⟨not_not.mp heq, rfl⟩
  · rintro ⟨heq, rfl⟩
    rw [if_neg (by omega), if_neg (not_not.mpr heq)]

/-- A line is accepted where it has as many fields as there are columns, up to its
first line break outside separators; the last value goes on to the end of the line. -/
theorem splitRow_spec (zFile : String) (lineno : Nat) (hne : separator ≠ []) (hnul : 0 ∉ line)
    (hmax : nCol ≤ intMax) {row : TextRow} :
    splitRow zFile separator nCol lineno line = .ok row ↔
      (fieldsPast separator line).length = nCol ∧
        row = (fieldsProlonged separator line).map offered := by
  rw [splitRow_ok_iff zFile lineno hmax]
  obtain hfew | hmany := Nat.lt_or_ge nCol (fieldsPast separator line).length
  · have hi := splitLine_many hfew
    constructor
    · rintro ⟨heq, -⟩
      omega
    · rintro ⟨heq, -⟩
      omega
  · obtain ⟨hi, htexts⟩ := splitLine_few hne hnul hmany
    rw [hi, rowValues_eq, htexts]

theorem azTexts_of_ok {zFile : String} {lineno : Nat} (hne : separator ≠ []) (hnul : 0 ∉ line)
    (hmax : nCol ≤ intMax) {row : TextRow}
    (h : splitRow zFile separator nCol lineno line = .ok row) :
    azTexts (splitLine separator nCol line) = fieldsProlonged separator line := by
  have hlen := ((splitRow_spec zFile lineno hne hnul hmax).mp h).1
  exact (splitLine_few hne hnul (Nat.le_of_eq hlen)).2

end Split

theorem scanned_quiet {line : Bytes} (h : ∀ c ∈ line, lineEnd c = false) : scanned line = line :=
  List.takeWhile_eq_self_iff.mpr fun c hc => by simp [h c hc]

theorem lineEnd_of_mem_scanned {line : Bytes} {c : UInt8} (h : c ∈ scanned line) :
    lineEnd c = false := by
  have hc := List.mem_takeWhile_imp h
  simpa using hc

theorem fieldsPast_quiet (separator : Bytes) {line : Bytes} (h : ∀ c ∈ line, lineEnd c = false) :
    fieldsPast separator line = textFields separator line := by
  rw [fieldsPast, splitFields_quiet separator h]
  rfl

theorem fieldsProlonged_quiet (separator : Bytes) {line : Bytes}
    (h : ∀ c ∈ line, lineEnd c = false) :
    fieldsProlonged separator line = textFields separator line := by
  rw [fieldsProlonged, splitFields_quiet separator h,
    prolonged_of_rest (splitFields_never_rest separator line 0)]
  rfl

/-- A line is taken for the fields of its text up to the first line break. -/
structure SplitAsFields (zFile : String) (separator : Bytes) (nCol lineno : Nat) (line : Bytes) :
    Prop where
  accepted : (∃ row, splitRow zFile separator nCol lineno line = .ok row) ↔
    (textFields separator (scanned line)).length = nCol
  values : ∀ row, splitRow zFile separator nCol lineno line = .ok row →
    azTexts (splitLine separator nCol line) = textFields separator (scanned line) ∧
      row = (textFields separator (scanned line)).map offered
  joined : ∀ row, splitRow zFile separator nCol lineno line = .ok row →
    separator.intercalate (azTexts (splitLine separator nCol line)) = scanned line
  clean : ∀ row, splitRow zFile separator nCol lineno line = .ok row →
    ∀ text ∈ azTexts (splitLine separator nCol line), ∀ c ∈ text, lineEnd c = false

section Fields

variable {zFile : String} {separator line : Bytes} {nCol lineno : Nat}

theorem splitAsFields_quiet (hne : separator ≠ []) (hnul : 0 ∉ line) (hmax : nCol ≤ intMax)
    (hquiet : ∀ c ∈ line, lineEnd c = false) : SplitAsFields zFile separator nCol lineno line := by
  have hspec := @splitRow_spec separator line nCol zFile lineno hne hnul hmax
  rw [fieldsPast_quiet separator hquiet, fieldsProlonged_quiet separator hquiet] at hspec
  have htexts : ∀ row, splitRow zFile separator nCol lineno line = .ok row →
      azTexts (splitLine separator nCol line) = textFields separator line := by
    intro row h
    rw [azTexts_of_ok hne hnul hmax h, fieldsProlonged_quiet separator hquiet]
  constructor
  · rw [scanned_quiet hquiet]
    constructor
    · rintro ⟨row, h⟩
      exact (hspec.mp h).1
    · intro hlen
      exact ⟨_, hspec.mpr ⟨hlen, rfl⟩⟩
  · intro row h
    rw [scanned_quiet hquiet]
    exact ⟨htexts row h, (hspec.mp h).2⟩
  · intro row h
    rw [htexts row h, intercalate_textFields hne, scanned_quiet hquiet]
  · intro row h text htext c hc
    rw [htexts row h] at htext
    apply hquiet
    rw [← intercalate_textFields hne line]
    exact mem_intercalate_of_mem htext hc

theorem splitAsFields_refused (hne : separator ≠ []) (hnul : 0 ∉ line) (hmax : nCol ≤ intMax)
    (htext : (textFields separator (scanned line)).length ≠ nCol)
    (hpast : (fieldsPast separator line).length ≠ nCol) :
    SplitAsFields zFile separator nCol lineno line := by
  have hnot : ∀ row, splitRow zFile separator nCol lineno line ≠ .ok row := by
    intro row h
    exact hpast ((splitRow_spec zFile lineno hne hnul hmax).mp h).1
  constructor
  · constructor
    · rintro ⟨row, h⟩
      exact absurd h (hnot row)
    · intro hlen
      exact absurd hlen htext
  · intro row h
    exact absurd h (hnot row)
  · intro row h
    exact absurd h (hnot row)
  · intro row h
    exact absurd h (hnot row)

/-- The values of an accepted line, joined, are all of the line. -/
theorem quiet_of_accepted (hne : separator ≠ []) (hnul : 0 ∉ line) (hmax : nCol ≤ intMax)
    (h : SplitAsFields zFile separator nCol lineno line)
    (hpast : (fieldsPast separator line).length = nCol) : ∀ c ∈ line, lineEnd c = false := by
  have hrow := (splitRow_spec zFile lineno hne hnul hmax).mpr ⟨hpast, rfl⟩
  have hjoined := h.joined _ hrow
  rw [azTexts_of_ok hne hnul hmax hrow, fieldsProlonged,
    intercalate_prolonged hne lineEnd line 0 (Nat.zero_le _), List.drop_zero] at hjoined
  intro c hc
  rw [hjoined] at hc
  exact lineEnd_of_mem_scanned hc

end Fields

theorem split_as_fields_iff (zFile : String) (separator line : CString)
    (hne : separator.bytes ≠ []) (nCol lineno : Nat) (hmax : nCol ≤ intMax) :
    SplitAsFields zFile separator.bytes nCol lineno line.bytes ↔
      (∀ c ∈ line.bytes, lineEnd c = false) ∨
        ((textFields separator.bytes (scanned line.bytes)).length ≠ nCol ∧
          (fieldsPast separator.bytes line.bytes).length ≠ nCol) := by
  constructor
  · intro h
    by_cases hpast : (fieldsPast separator.bytes line.bytes).length = nCol
    · exact .inl (quiet_of_accepted hne line.noNul hmax h hpast)
    · refine .inr ⟨fun htext => hpast ?_, hpast⟩
      obtain ⟨row, hrow⟩ := h.accepted.mpr htext
      exact ((splitRow_spec zFile lineno hne line.noNul hmax).mp hrow).1
  · rintro (hquiet | ⟨htext, hpast⟩)
    · exact splitAsFields_quiet hne line.noNul hmax hquiet
    · exact splitAsFields_refused hne line.noNul hmax htext hpast

def semicolon : CString := { bytes := [59], noNul := by decide }

theorem split_as_fields_iff_short :
    SplitAsFields "data.csv" [59] 3 1 [97, 59, 98, 13] ↔
      (∀ c ∈ ([97, 59, 98, 13] : Bytes), lineEnd c = false) ∨
        ((textFields [59] (scanned [97, 59, 98, 13])).length ≠ 3 ∧
          (fieldsPast [59] [97, 59, 98, 13]).length ≠ 3) :=
  split_as_fields_iff "data.csv" semicolon { bytes := [97, 59, 98, 13], noNul := by decide }
    (by decide) 3 1 (by decide)

/-- The carriage return of a line that ends in CR and LF becomes part of the last value. -/
theorem carriage_return_kept : ¬SplitAsFields "data.csv" [59] 2 1 [97, 59, 98, 13] := by
  intro h
  have hquiet := quiet_of_accepted (by decide) (by decide) (by decide) h (by decide) 13 (by decide)
  exact absurd hquiet (by decide)

end RSQLCipher.FieldSplitting
