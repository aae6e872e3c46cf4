import Mathlib.Data.Rat.Cast.Order
import Mathlib.Data.Nat.Log
import Mathlib.Algebra.Order.Field.Power
import Mathlib.Tactic.Ring
import Mathlib.Tactic.NormNum
import Mathlib.Tactic.Positivity
import Mathlib.Tactic.FieldSimp

namespace RSQLCipher.Library

structure Binary64 where
  bits : BitVec 64
deriving DecidableEq, Repr

namespace Binary64

def negative (x : Binary64) : Bool := decide (2 ^ 63 ≤ x.bits.toNat)

def exponent (x : Binary64) : Nat := x.bits.toNat / 2 ^ 52 % 2 ^ 11

def fraction (x : Binary64) : Nat := x.bits.toNat % 2 ^ 52

def isNaN (x : Binary64) : Bool := decide (x.exponent = 2047 ∧ x.fraction ≠ 0)

def significand (x : Binary64) : Nat :=
  if x.exponent = 0 then x.fraction else 2 ^ 52 + x.fraction

/-- The rational number a finite word stands for; infinities and NaNs have none. -/
def toRat (x : Binary64) : Option ℚ :=
  if x.exponent = 2047 then none
  else some ((if x.negative then -1 else 1) * x.significand *
    (2 : ℚ) ^ ((max x.exponent 1 : ℤ) - 1075))

def roundToEven (m s : Nat) : Nat :=
  if 2 ^ s < 2 * (m % 2 ^ s) ∨ (2 * (m % 2 ^ s) = 2 ^ s ∧ m / 2 ^ s % 2 = 1)
  then m / 2 ^ s + 1 else m / 2 ^ s

def rounded (m : Nat) : Nat :=
  if m.log2 ≤ 52 then m * 2 ^ (52 - m.log2) else roundToEven m (m.log2 - 52)

/-- Exponent and fraction fields of a natural number. The hidden bit of the
significand is added to the exponent field, so that a carry out of rounding
lands in the exponent. -/
def magnitude (m : Nat) : Nat :=
  if m = 0 then 0 else (m.log2 + 1022) * 2 ^ 52 + rounded m

/-- Conversion of an integer, rounding to nearest with ties to even. -/
def ofInt (v : Int) : Binary64 :=
  ⟨BitVec.ofNat 64 ((if v < 0 then 2 ^ 63 else 0) + magnitude v.natAbs)⟩

theorem roundToEven_le (m s k : Nat) (h : m < 2 ^ (s + k)) : roundToEven m s ≤ 2 ^ k := by
  have hq : m / 2 ^ s < 2 ^ k := by
    rw [Nat.div_lt_iff_lt_mul (by positivity), ← pow_add, Nat.add_comm k s]
    exact h
  unfold roundToEven
  split <;> omega

theorem rounded_le (m : Nat) : rounded m ≤ 2 ^ 53 := by
  have hlt : m < 2 ^ (m.log2 + 1) := Nat.lt_log2_self
  unfold rounded
  split
  · calc m * 2 ^ (52 - m.log2) ≤ 2 ^ (m.log2 + 1) * 2 ^ (52 - m.log2) :=
          Nat.mul_le_mul_right _ hlt.le
      _ = 2 ^ 53 := by rw [← pow_add]; congr 1; omega
  · have hk : m.log2 - 52 + 53 = m.log2 + 1 := by omega
    exact roundToEven_le m (m.log2 - 52) 53 (by rw [hk]; exact hlt)

theorem magnitude_le (m : Nat) (h : m ≤ 2 ^ 63) : magnitude m ≤ 1087 * 2 ^ 52 := by
  by_cases hm : m = 0
  · simp [magnitude, hm]
  · have hlog : m.log2 ≤ 63 := by
      have hle : 2 ^ m.log2 ≤ 2 ^ 63 := (Nat.log2_self_le hm).trans h
      exact (Nat.pow_le_pow_iff_right (by decide)).mp hle
    have hq := rounded_le m
    rw [magnitude, if_neg hm]
    omega

theorem bits_ofInt (v : Int) (h : v.natAbs ≤ 2 ^ 63) :
    (ofInt v).bits.toNat = (if v < 0 then 2 ^ 63 else 0) + magnitude v.natAbs := by
  have hm := magnitude_le v.natAbs h
  rw [ofInt, BitVec.toNat_ofNat]
  apply Nat.mod_eq_of_lt
  split <;> omega

theorem exponent_ofInt (v : Int) (h : v.natAbs ≤ 2 ^ 63) :
    (ofInt v).exponent = magnitude v.natAbs / 2 ^ 52 := by
  have hm := magnitude_le v.natAbs h
  rw [exponent, bits_ofInt v h]
  split <;> omega

theorem fraction_ofInt (v : Int) (h : v.natAbs ≤ 2 ^ 63) :
    (ofInt v).fraction = magnitude v.natAbs % 2 ^ 52 := by
  rw [fraction, bits_ofInt v h]
  split <;> omega

theorem negative_ofInt (v : Int) (h : v.natAbs ≤ 2 ^ 63) :
    (ofInt v).negative = decide (v < 0) := by
  have hm := magnitude_le v.natAbs h
  rw [negative, bits_ofInt v h]
  split <;> rename_i hv <;> simp only [hv, decide_true, decide_false, decide_eq_true_eq,
    decide_eq_false_iff_not] <;> omega

theorem exponent_ofInt_ne (v : Int) (h : v.natAbs ≤ 2 ^ 63) : (ofInt v).exponent ≠ 2047 := by
  have hm := magnitude_le v.natAbs h
  rw [exponent_ofInt v h]
  omega

theorem isNaN_ofInt (v : Int) (h : v.natAbs ≤ 2 ^ 63) : (ofInt v).isNaN = false := by
  simp [isNaN, exponent_ofInt_ne v h]

/-- Up to 53 bits nothing is rounded: the fields are those of the number itself. -/
theorem magnitude_exact (m : Nat) (h0 : m ≠ 0) (h : m ≤ 2 ^ 53) :
    ∃ e r, magnitude m = e * 2 ^ 52 + r ∧ r < 2 ^ 52 ∧ 0 < e ∧ (2 ^ 52 + r) * 2 ^ e = m * 2 ^ 1075 := by
  have hlo : 2 ^ m.log2 ≤ m := Nat.log2_self_le h0
  have hhi : m < 2 ^ (m.log2 + 1) := Nat.lt_log2_self
  by_cases hs : m.log2 ≤ 52
  · obtain ⟨k, hk⟩ := Nat.exists_eq_add_of_le hs
    have hk' : 52 - m.log2 = k := by omega
    have hexp : k + (m.log2 + 1023) = 1075 := by omega
    have hfield : ∀ q, 2 ^ 52 ≤ q →
        (m.log2 + 1022) * 2 ^ 52 + q = (m.log2 + 1023) * 2 ^ 52 + (q - 2 ^ 52) := by omega
    have hround : rounded m = m * 2 ^ k := by rw [rounded, if_pos hs, hk']
    have hlow : 2 ^ 52 ≤ m * 2 ^ k := by
      calc 2 ^ 52 = 2 ^ m.log2 * 2 ^ k := by rw [← pow_add, ← hk]
        _ ≤ m * 2 ^ k := Nat.mul_le_mul_right _ hlo
    have hupp : m * 2 ^ k < 2 ^ 53 := by
      calc m * 2 ^ k < 2 ^ (m.log2 + 1) * 2 ^ k := Nat.mul_lt_mul_of_pos_right hhi (by positivity)
        _ = 2 ^ 53 := by rw [← pow_add]; congr 1; omega
    have hsum : 2 ^ 52 + (m * 2 ^ k - 2 ^ 52) = m * 2 ^ k := Nat.add_sub_cancel' hlow
    refine ⟨m.log2 + 1023, m * 2 ^ k - 2 ^ 52, ?_, ?_, Nat.succ_pos _, ?_⟩
    · rw [magnitude, if_neg h0, hround, hfield _ hlow]
    · rw [Nat.sub_lt_iff_lt_add hlow]
      exact hupp
    · rw [hsum, mul_assoc, ← pow_add, hexp]
  · have hlog : m.log2 = 53 := by
      have hle : 2 ^ m.log2 ≤ 2 ^ 53 := hlo.trans h
      have h53 := (Nat.pow_le_pow_iff_right (a := 2) (by decide)).mp hle
      omega
    have hm : m = 2 ^ 53 := by rw [hlog] at hlo; exact le_antisymm h hlo
    have hround : rounded m = 2 ^ 52 := by rw [hm]; decide
    refine ⟨1076, 0, by rw [magnitude, if_neg h0, hlog, hround]; rfl, by positivity, by decide, ?_⟩
    rw [hm, add_zero, ← pow_add, ← pow_add]

theorem mul_zpow_of_scaled (s m e b : Nat) (h : s * 2 ^ e = m * 2 ^ b) :
    (s : ℚ) * (2 : ℚ) ^ ((e : ℤ) - b) = m := by
  rw [zpow_sub₀ two_ne_zero, ← mul_div_assoc, div_eq_iff (by positivity)]
  exact_mod_cast h

theorem toRat_ofInt (v : Int) (h : v.natAbs ≤ 2 ^ 53) : (ofInt v).toRat = some (v : ℚ) := by
  have h63 : v.natAbs ≤ 2 ^ 63 := h.trans (by decide)
  rw [toRat, if_neg (exponent_ofInt_ne v h63), negative_ofInt v h63]
  congr 1
  by_cases h0 : v.natAbs = 0
  · have hv : v = 0 := Int.natAbs_eq_zero.mp h0
    subst hv
    have he : (ofInt 0).exponent = 0 := by decide
    have hf : (ofInt 0).fraction = 0 := by decide
    simp [significand, he, hf]
  · obtain ⟨e, r, hmag, hr, he0, hexact⟩ := magnitude_exact v.natAbs h0 h
    have he : (ofInt v).exponent = e := by rw [exponent_ofInt v h63, hmag]; omega
    have hf : (ofInt v).fraction = r := by rw [fraction_ofInt v h63, hmag]; omega
    have hsig : (ofInt v).significand = 2 ^ 52 + r := by
      rw [significand, he, hf, if_neg (by omega)]
    have hmax : (max (e : ℤ) 1) = e := by omega
    have hval : ((2 ^ 52 + r : ℕ) : ℚ) * (2 : ℚ) ^ ((e : ℤ) - 1075) = (v.natAbs : ℚ) := by
      simpa only [Nat.cast_ofNat] using mul_zpow_of_scaled (2 ^ 52 + r) v.natAbs e 1075 hexact
    rw [hsig, he, hmax, mul_assoc, hval]
    by_cases hv : v < 0
    · have habs : (v.natAbs : ℚ) = -(v : ℚ) := by
        rw [Nat.cast_natAbs, abs_of_neg hv, Int.cast_neg]
      simp [hv, habs]
    · have habs : (v.natAbs : ℚ) = (v : ℚ) := by
        rw [Nat.cast_natAbs, abs_of_nonneg (not_lt.mp hv)]
      simp [hv, habs]

end Binary64

end RSQLCipher.Library
