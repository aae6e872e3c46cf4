import RSQLCipher.DeclaredType
import RSQLCipher.Library.Window

namespace RSQLCipher.AffinityTable

open RSQLCipher.Library RSQLCipher.Values RSQLCipher.DeclaredType

/-- The letters of a type name, for a comparison that ignores the case. -/
def lowered (z : Bytes) : List Char := z.map fun b => (Char.ofUInt8 b).toLower

def word (name : String) : List Char := name.toList.map Char.toLower

def ContainsOne (names : List String) (z : Bytes) : Prop := ∃ name ∈ names, word name <:+: lowered z

def EndsInOne (names : List String) (z : Bytes) : Prop := ∃ name ∈ names, word name <:+ lowered z

instance (names : List String) (z : Bytes) : Decidable (ContainsOne names z) :=
  inferInstanceAs (Decidable (∃ name ∈ names, word name <:+: lowered z))

instance (names : List String) (z : Bytes) : Decidable (EndsInOne names z) :=
  inferInstanceAs (Decidable (∃ name ∈ names, word name <:+ lowered z))

def textNames : List String := ["CHAR", "CLOB", "TEXT"]

def realNames : List String := ["REAL", "FLOA", "DOUB"]

/-- The table of substrings and affinities: entries toward the top take priority. -/
def affinityOf (z : Bytes) : Affinity :=
  if ContainsOne ["INT"] z then .integer
  else if ContainsOne textNames z then .text
  else if ContainsOne ["BLOB"] z then .blob
  else if ContainsOne realNames z then .real
  else .numeric

theorem containsOne_concat (names : List String) (z : Bytes) (b : UInt8) :
    ContainsOne names (z ++ [b]) ↔ EndsInOne names (z ++ [b]) ∨ ContainsOne names z := by
  simp only [ContainsOne, EndsInOne, lowered, List.map_append, List.map_cons, List.map_nil,
    List.infix_concat_iff]
  constructor
  · rintro ⟨name, hname, hends | hbefore⟩
    · exact .inl ⟨name, hname, hends⟩
    · exact .inr ⟨name, hname, hbefore⟩
  · rintro (⟨name, hname, hends⟩ | ⟨name, hname, hbefore⟩)
    · exact ⟨name, hname, .inl hends⟩
    · exact ⟨name, hname, .inr hbefore⟩

theorem containsOne_append {names : List String} {z : Bytes} (h : ContainsOne names z)
    (rest : Bytes) : ContainsOne names (z ++ rest) := by
  obtain ⟨name, hname, hinfix⟩ := h
  refine ⟨name, hname, hinfix.trans ?_⟩
  rw [lowered, lowered, List.map_append]
  exact (List.prefix_append _ _).isInfix

/-- One byte more changes the affinity only in favour of a name that ends with it. -/
theorem affinityOf_concat {z : Bytes} {b : UInt8} (hint : ¬ContainsOne ["INT"] (z ++ [b])) :
    affinityOf (z ++ [b]) =
      if EndsInOne textNames (z ++ [b]) then .text
      else if EndsInOne ["BLOB"] (z ++ [b]) ∧ (affinityOf z = .numeric ∨ affinityOf z = .real)
        then .blob
      else if EndsInOne realNames (z ++ [b]) ∧ affinityOf z = .numeric then .real
      else affinityOf z := by
  have hbefore : ¬ContainsOne ["INT"] z := fun h => hint (containsOne_append h [b])
  simp only [affinityOf, if_neg hint, if_neg hbefore]
  simp only [containsOne_concat textNames, containsOne_concat ["BLOB"], containsOne_concat realNames]
  by_cases htext : EndsInOne textNames (z ++ [b])
  · simp [htext]
  by_cases htext' : ContainsOne textNames z
  · simp [htext, htext']
  by_cases hblob' : ContainsOne ["BLOB"] z
  · simp [htext, htext', hblob']
  by_cases hblob : EndsInOne ["BLOB"] (z ++ [b])
  · by_cases hreal' : ContainsOne realNames z <;> simp [htext, htext', hblob', hblob, hreal']
  · by_cases hreal' : ContainsOne realNames z <;>
      by_cases hreal : EndsInOne realNames (z ++ [b]) <;>
        simp [htext, htext', hblob', hblob, hreal', hreal]

/-- The bytes as the window of the scan sees them. -/
def digits (z : Bytes) : List ℕ := z.map fun b => (sqlite3UpperToLower b).toNat

/-- `sqlite3UpperToLower` lowers the ASCII letters, and only these. -/
theorem digit_eq (b : UInt8) : (Char.ofUInt8 b).toLower.toNat = (sqlite3UpperToLower b).toNat := by
  have hall : ∀ n < 256, (Char.ofUInt8 (UInt8.ofNat n)).toLower.toNat =
      (sqlite3UpperToLower (UInt8.ofNat n)).toNat := by
    decide +kernel
  have hb := hall b.toNat b.toNat_lt
  rw [UInt8.ofNat_toNat] at hb
  exact hb

theorem digits_eq (z : Bytes) : digits z = (lowered z).map Char.toNat := by
  simp only [digits, lowered, List.map_map]
  apply List.map_congr_left
  intro b _
  exact (digit_eq b).symm

theorem digits_lt (z : Bytes) : ∀ d ∈ digits z, d < 256 := by
  intro d hd
  obtain ⟨b, -, rfl⟩ := List.mem_map.mp hd
  exact UInt8.toNat_lt _

/-- The hash of the scan is a window of four bytes. -/
def Hashes (h : UInt32) (z : Bytes) : Prop := h.toNat = window 256 4 (digits z)

theorem hashes_nil : Hashes 0 [] := (window_nil 256 4).symm

theorem hashes_concat {h : UInt32} {z : Bytes} (hz : Hashes h z) (b : UInt8) :
    Hashes ((h <<< 8) + (sqlite3UpperToLower b).toUInt32) (z ++ [b]) := by
  have hdigits : digits (z ++ [b]) = digits z ++ [(sqlite3UpperToLower b).toNat] := by
    simp [digits]
  rw [Hashes, hdigits, window_concat, ← hz]
  simp only [UInt32.toNat_add, UInt32.toNat_shiftLeft, UInt8.toNat_toUInt32, Nat.shiftLeft_eq]
  show (h.toNat * 2 ^ 8 % 2 ^ 32 + _) % 2 ^ 32 = _
  rw [Nat.mod_add_mod]
  rfl

/-- Whether the window shows a name. -/
theorem endsIn_iff {h : UInt32} {z : Bytes} (hz : Hashes h z) (name : String)
    (hascii : ∀ c ∈ word name, c.toNat < 256) (hfirst : ((word name).map Char.toNat).head? ≠ some 0)
    (hlength : (word name).length ≤ 4) :
    word name <:+ lowered z ↔
      h.toNat % 256 ^ (word name).length = spell 256 ((word name).map Char.toNat) := by
  have hlt : ∀ d ∈ (word name).map Char.toNat, d < 256 := by
    intro d hd
    obtain ⟨c, hc, rfl⟩ := List.mem_map.mp hd
    exact hascii c hc
  have hinj : Function.Injective Char.toNat := fun c d h => Char.toNat_inj.mp h
  rw [← List.suffix_map_iff_of_injective hinj, ← digits_eq,
    ← window_eq_iff (by norm_num) hlt (digits_lt z) hfirst, List.length_map, hz, window_mod hlength]

/-- The comparison with a keyword of four letters. -/
theorem keyword_iff {h : UInt32} {z : Bytes} (hz : Hashes h z) (name : String) (k : UInt32)
    (hascii : ∀ c ∈ word name, c.toNat < 256) (hfirst : ((word name).map Char.toNat).head? ≠ some 0)
    (hlength : (word name).length = 4) (hk : k.toNat = spell 256 ((word name).map Char.toNat)) :
    h = k ↔ word name <:+ lowered z := by
  have hmod : h.toNat % 256 ^ 4 = h.toNat := Nat.mod_eq_of_lt h.toNat_lt
  rw [endsIn_iff hz name hascii hfirst hlength.le, hlength, ← hk, ← UInt32.toNat_inj, hmod]

theorem ascii_of_all {name : String} (h : (word name).all (fun c => c.toNat < 256) = true) :
    ∀ c ∈ word name, c.toNat < 256 := by
  simpa using h

theorem int_iff {h : UInt32} {z : Bytes} (hz : Hashes h z) :
    h &&& 0x00FFFFFF = keyword '\x00' 'i' 'n' 't' ↔ EndsInOne ["INT"] z := by
  have hends : EndsInOne ["INT"] z ↔ word "INT" <:+ lowered z := by simp [EndsInOne]
  rw [hends, endsIn_iff hz "INT" (ascii_of_all rfl) (by decide) (by decide), ← UInt32.toNat_inj,
    UInt32.toNat_and]
  show h.toNat &&& (2 ^ 24 - 1) = _ ↔ _
  rw [Nat.and_two_pow_sub_one_eq_mod]
  exact Iff.rfl

theorem text_iff {h : UInt32} {z : Bytes} (hz : Hashes h z) :
    (h = keyword 'c' 'h' 'a' 'r' ∨ h = keyword 'c' 'l' 'o' 'b' ∨ h = keyword 't' 'e' 'x' 't') ↔
      EndsInOne textNames z := by
  rw [keyword_iff hz "CHAR" _ (ascii_of_all rfl) (by decide) rfl (by decide),
    keyword_iff hz "CLOB" _ (ascii_of_all rfl) (by decide) rfl (by decide),
    keyword_iff hz "TEXT" _ (ascii_of_all rfl) (by decide) rfl (by decide)]
  simp [EndsInOne, textNames]

theorem blob_iff {h : UInt32} {z : Bytes} (hz : Hashes h z) :
    h = keyword 'b' 'l' 'o' 'b' ↔ EndsInOne ["BLOB"] z := by
  rw [keyword_iff hz "BLOB" _ (ascii_of_all rfl) (by decide) rfl (by decide)]
  simp [EndsInOne]

theorem real_iff {h : UInt32} {z : Bytes} (hz : Hashes h z) :
    (h = keyword 'r' 'e' 'a' 'l' ∨ h = keyword 'f' 'l' 'o' 'a' ∨ h = keyword 'd' 'o' 'u' 'b') ↔
      EndsInOne realNames z := by
  rw [keyword_iff hz "REAL" _ (ascii_of_all rfl) (by decide) rfl (by decide),
    keyword_iff hz "FLOA" _ (ascii_of_all rfl) (by decide) rfl (by decide),
    keyword_iff hz "DOUB" _ (ascii_of_all rfl) (by decide) rfl (by decide)]
  simp [EndsInOne, realNames]

def longKeywords : List UInt32 :=
  [keyword 'c' 'h' 'a' 'r', keyword 'c' 'l' 'o' 'b', keyword 't' 'e' 'x' 't',
    keyword 'b' 'l' 'o' 'b', keyword 'r' 'e' 'a' 'l', keyword 'f' 'l' 'o' 'a',
    keyword 'd' 'o' 'u' 'b']

theorem longKeywords_int :
    ∀ k ∈ longKeywords, k &&& 0x00FFFFFF ≠ keyword '\x00' 'i' 'n' 't' := by
  intro k hk
  simp only [longKeywords, List.mem_cons, List.not_mem_nil, or_false] at hk
  obtain rfl | rfl | rfl | rfl | rfl | rfl | rfl := hk <;> decide

/-- What the scan makes of a byte. -/
theorem scan_cons {h : UInt32} {z : Bytes} {b : UInt8} (aff : Affinity) (rest : Bytes)
    (hz : Hashes ((h <<< 8) + (sqlite3UpperToLower b).toUInt32) z) (hb : b ≠ 0) :
    scan h aff (b :: rest) =
      if EndsInOne ["INT"] z then .integer
      else scan ((h <<< 8) + (sqlite3UpperToLower b).toUInt32)
        (if EndsInOne textNames z then .text
        else if EndsInOne ["BLOB"] z ∧ (aff = .numeric ∨ aff = .real) then .blob
        else if EndsInOne realNames z ∧ aff = .numeric then .real
        else aff) rest := by
  rw [scan, if_neg hb]
  simp only [← text_iff hz, ← blob_iff hz, ← real_iff hz, ← int_iff hz]
  generalize (h <<< 8) + (sqlite3UpperToLower b).toUInt32 = h'
  by_cases hint : h' &&& 0x00FFFFFF = keyword '\x00' 'i' 'n' 't'
  · have hother : ∀ k ∈ longKeywords, h' ≠ k := by
      rintro k hk rfl
      exact longKeywords_int _ hk hint
    simp only [longKeywords, List.forall_mem_cons] at hother
    simp [hint, hother]
  rw [if_neg hint, if_neg hint]
  by_cases hchar : h' = keyword 'c' 'h' 'a' 'r'
  · simp [hchar]
  by_cases hclob : h' = keyword 'c' 'l' 'o' 'b'
  · simp [hclob]
  by_cases htext : h' = keyword 't' 'e' 'x' 't'
  · simp [htext]
  by_cases hblob : h' = keyword 'b' 'l' 'o' 'b'
  · subst hblob
    by_cases haff : aff = .numeric ∨ aff = .real
    · simp [hchar, hclob, htext, haff]
    · push Not at haff
      simp [hchar, hclob, htext, haff]
  by_cases haff : aff = .numeric
  · subst haff
    by_cases hreal : h' = keyword 'r' 'e' 'a' 'l'
    · subst hreal
      simp [hchar, hclob, htext, hblob]
    by_cases hfloa : h' = keyword 'f' 'l' 'o' 'a'
    · subst hfloa
      simp [hchar, hclob, htext, hblob, hreal]
    by_cases hdoub : h' = keyword 'd' 'o' 'u' 'b'
    · subst hdoub
      simp [hchar, hclob, htext, hblob, hreal, hfloa]
    · simp [hchar, hclob, htext, hblob, hreal, hfloa, hdoub]
  · simp [hchar, hclob, htext, hblob, haff]

theorem scan_eq (h : UInt32) (seen rest : Bytes) (hz : Hashes h seen)
    (hint : ¬ContainsOne ["INT"] seen) :
    scan h (affinityOf seen) rest = affinityOf (seen ++ rest.takeWhile (· ≠ 0)) := by
  induction rest generalizing h seen with
  | nil => simp [scan]
  | cons b rest ih =>
    by_cases hb : b = 0
    · simp [scan, hb]
    have hz' := hashes_concat hz b
    have htake : (b :: rest).takeWhile (· ≠ 0) = b :: rest.takeWhile (· ≠ 0) := by simp [hb]
    rw [htake, List.append_cons, scan_cons _ rest hz' hb]
    by_cases hends : EndsInOne ["INT"] (seen ++ [b])
    · have hcontains : ContainsOne ["INT"] (seen ++ [b]) :=
        (containsOne_concat _ seen b).mpr (.inl hends)
      rw [if_pos hends, affinityOf, if_pos (containsOne_append hcontains _)]
    · have hint' : ¬ContainsOne ["INT"] (seen ++ [b]) := by
        rw [containsOne_concat]
        exact not_or.mpr ⟨hends, hint⟩
      rw [if_neg hends, ← affinityOf_concat hint']
      exact ih _ _ hz' hint'

/-- The scan is the table, for the bytes up to the NUL. -/
theorem sqlite3AffinityType_eq (zIn : Bytes) :
    sqlite3AffinityType zIn = affinityOf (zIn.takeWhile (· ≠ 0)) :=
  scan_eq 0 [] zIn hashes_nil (by decide)

end RSQLCipher.AffinityTable
