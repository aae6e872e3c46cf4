import Mathlib.Data.Nat.Digits.Defs

namespace RSQLCipher.Library

variable {b k : ℕ} {s w : List ℕ}

/-- The number that a word of digits spells, its last digit being the lowest. -/
def spell (b : ℕ) (s : List ℕ) : ℕ := Nat.ofDigits b s.reverse

theorem spell_concat (b : ℕ) (s : List ℕ) (d : ℕ) : spell b (s ++ [d]) = d + b * spell b s := by
  rw [spell, List.reverse_concat, Nat.ofDigits_cons]
  rfl

theorem spell_cons (b : ℕ) (s : List ℕ) (d : ℕ) :
    spell b (d :: s) = spell b s + b ^ s.length * d := by
  rw [spell, Nat.ofDigits_reverse_cons]
  rfl

theorem pow_le_spell {d : ℕ} (hd : d ≠ 0) (b : ℕ) (s : List ℕ) :
    b ^ s.length ≤ spell b (d :: s) := by
  rw [spell_cons]
  exact (Nat.le_mul_of_pos_right _ (Nat.pos_of_ne_zero hd)).trans (Nat.le_add_left _ _)

theorem spell_lt (hb : 1 < b) (hs : ∀ d ∈ s, d < b) : spell b s < b ^ s.length := by
  have hlt := Nat.ofDigits_lt_base_pow_length (l := s.reverse) hb
    fun d hd => hs d (List.mem_reverse.mp hd)
  rw [List.length_reverse] at hlt
  exact hlt

/-- What a register of `k` digits holds when the digits of a word have been shifted in. -/
def window (b k : ℕ) (s : List ℕ) : ℕ := spell b s % b ^ k

theorem window_nil (b k : ℕ) : window b k [] = 0 := by simp [window, spell]

theorem window_concat (b k : ℕ) (s : List ℕ) (d : ℕ) :
    window b k (s ++ [d]) = (window b k s * b + d) % b ^ k := by
  rw [window, window, spell_concat, Nat.add_comm, Nat.mul_comm b]
  rw [Nat.add_mod, ← Nat.mod_mul_mod, ← Nat.add_mod]

theorem window_mod {j : ℕ} (h : j ≤ k) (b : ℕ) (s : List ℕ) :
    window b k s % b ^ j = window b j s :=
  Nat.mod_mod_of_dvd _ (Nat.pow_dvd_pow b h)

theorem window_take (hb : 1 < b) (hs : ∀ d ∈ s, d < b) :
    window b k s = Nat.ofDigits b (s.reverse.take k) :=
  Nat.ofDigits_mod_pow_eq_ofDigits_take k (by omega) s.reverse
    fun d hd => hs d (List.mem_reverse.mp hd)

/-- A register that is too small for a word holds its end, and only this. -/
theorem window_eq_iff (hb : 1 < b) (hw : ∀ d ∈ w, d < b) (hs : ∀ d ∈ s, d < b)
    (hfirst : w.head? ≠ some 0) : window b w.length s = spell b w ↔ w <:+ s := by
  rw [← List.reverse_prefix]
  constructor
  · intro h
    by_cases hlen : w.length ≤ s.length
    · rw [window_take hb hs] at h
      have heq : s.reverse.take w.length = w.reverse := by
        apply Nat.ofDigits_inj_of_len_eq hb _ _ _ h
        · simpa using hlen
        · exact fun d hd => hs d (List.mem_reverse.mp (List.mem_of_mem_take hd))
        · exact fun d hd => hw d (List.mem_reverse.mp hd)
      rw [← heq]
      exact List.take_prefix _ _
    · cases w with
      | nil => exact absurd (Nat.zero_le _) hlen
      | cons d w =>
        have hle : b ^ s.length ≤ b ^ w.length :=
          Nat.pow_le_pow_right (by omega) (Nat.lt_succ_iff.mp (not_le.mp hlen))
        have hpos : d ≠ 0 := fun hd => hfirst (congrArg some hd)
        have hspell := pow_le_spell hpos b w
        have hwindow : window b (d :: w).length s ≤ spell b s := Nat.mod_le _ _
        have hlt := spell_lt hb hs
        omega
  · intro h
    have heq := List.prefix_iff_eq_take.mp h
    rw [List.length_reverse] at heq
    rw [window_take hb hs, spell, heq]

end RSQLCipher.Library
