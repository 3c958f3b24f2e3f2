import Mathlib.Algebra.Group.Nat.Defs
import Mathlib.Tactic.ByContra
import TransitShapes.Scalar.Binary64

/-! # Rounding to the nearest double

All doubles that are not below zero are whole multiples of the smallest one, and their bits count
them in order. So rounding is a map from whole numbers of that unit to bits.
-/

namespace TransitShapes.Binary64

/-! ## Whole numbers without their last bits -/

theorem twoTo_eq (n : Nat) : twoTo n = 2 ^ n := rfl

theorem shiftNearest_eq (n shift : Nat) :
    shiftNearest n shift = n / 2 ^ shift +
      if 2 * (n % 2 ^ shift) < 2 ^ shift then 0
      else if 2 ^ shift < 2 * (n % 2 ^ shift) then 1
      else n / 2 ^ shift % 2 := by
  unfold shiftNearest
  simp only [twoTo_eq, Nat.shiftRight_eq_div_pow]
  rcases Nat.lt_trichotomy (2 * (n % 2 ^ shift)) (2 ^ shift) with h | h | h
  · rw [Nat.compare_eq_lt.mpr h, if_pos h]
    rfl
  · rw [Nat.compare_eq_eq.mpr h, if_neg (by omega), if_neg (by omega)]
  · rw [Nat.compare_eq_gt.mpr h, if_neg (by omega), if_pos h]

theorem div_le_shiftNearest (n shift : Nat) : n / 2 ^ shift ≤ shiftNearest n shift := by
  rw [shiftNearest_eq]
  exact Nat.le_add_right _ _

theorem shiftNearest_le (n shift : Nat) : shiftNearest n shift ≤ n / 2 ^ shift + 1 := by
  rw [shiftNearest_eq]
  refine Nat.add_le_add_left ?_ _
  split
  · omega
  · split
    · omega
    · omega

theorem shiftNearest_mono {a b : Nat} (h : a ≤ b) (shift : Nat) :
    shiftNearest a shift ≤ shiftNearest b shift := by
  have hdiv : a / 2 ^ shift ≤ b / 2 ^ shift := Nat.div_le_div_right h
  rcases Nat.lt_or_eq_of_le hdiv with hlt | heq
  · have := shiftNearest_le a shift
    have := div_le_shiftNearest b shift
    omega
  · have hmod : a % 2 ^ shift ≤ b % 2 ^ shift := by
      have ha := Nat.div_add_mod a (2 ^ shift)
      have hb := Nat.div_add_mod b (2 ^ shift)
      rw [heq] at ha
      omega
    rw [shiftNearest_eq, shiftNearest_eq, heq]
    refine Nat.add_le_add_left ?_ _
    have hparity := Nat.mod_lt (b / 2 ^ shift) (by decide : 0 < 2)
    split <;> split <;> (try split) <;> (try split) <;> omega

theorem shiftNearest_mul (n shift : Nat) : shiftNearest (n * 2 ^ shift) shift = n := by
  rw [shiftNearest_eq, Nat.mul_mod_left, if_pos (Nat.two_pow_pos _), Nat.add_zero,
    Nat.mul_div_cancel _ (Nat.two_pow_pos _)]

/-! ## Whole numbers of the smallest double -/

/-- The bits of the infinite double. -/
def infiniteBits : Nat := 2047 * 2 ^ 52

/-- How many bits more than a double holds. -/
def excess (n : Nat) : Nat := bitLength n - 53

/-- The bits of the double nearest to a whole number of the smallest one. -/
def roundUnits (n : Nat) : Nat := min (excess n * 2 ^ 52 + shiftNearest n (excess n)) infiniteBits

theorem lt_two_pow_bitLength (n : Nat) : n < 2 ^ bitLength n := by
  unfold bitLength
  split
  case isTrue h => simp [h]
  case isFalse => exact Nat.lt_log2_self

theorem two_pow_le_of_bitLength {n k : Nat} (h : k < bitLength n) : 2 ^ k ≤ n := by
  unfold bitLength at h
  split at h
  case isTrue => omega
  case isFalse hn =>
    exact Nat.le_trans (Nat.pow_le_pow_right (by decide) (by omega)) (Nat.log2_self_le hn)

theorem bitLength_le_iff {n k : Nat} : bitLength n ≤ k ↔ n < 2 ^ k := by
  constructor
  · intro h
    exact Nat.lt_of_lt_of_le (lt_two_pow_bitLength n) (Nat.pow_le_pow_right (by decide) h)
  · intro h
    by_contra hlt
    have := two_pow_le_of_bitLength (Nat.lt_of_not_le hlt)
    omega

theorem bitLength_mono {a b : Nat} (h : a ≤ b) : bitLength a ≤ bitLength b :=
  bitLength_le_iff.mpr (Nat.lt_of_le_of_lt h (lt_two_pow_bitLength b))

theorem bitLength_mul_two_pow {n : Nat} (hn : 0 < n) (k : Nat) :
    bitLength (n * 2 ^ k) = bitLength n + k := by
  apply Nat.le_antisymm
  · rw [bitLength_le_iff, Nat.pow_add]
    exact Nat.mul_lt_mul_of_pos_right (lt_two_pow_bitLength n) (Nat.two_pow_pos _)
  · have hpos : 0 < bitLength n := by
      unfold bitLength
      split <;> omega
    by_contra hlt
    have hle : bitLength (n * 2 ^ k) ≤ (bitLength n - 1) + k := by omega
    rw [bitLength_le_iff, Nat.pow_add] at hle
    have := Nat.lt_of_mul_lt_mul_right hle
    have := two_pow_le_of_bitLength (n := n) (k := bitLength n - 1) (by omega)
    omega

/-! ## Fractions of the smallest double

A product is no whole number of the smallest double, but of a power of two below it. With `s` bits
below the unit the rounding is the same, and with none it is the one above.
-/

def excessAt (s n : Nat) : Nat := bitLength n - (53 + s)

/-- The bits of the double nearest to `n / 2 ^ s` of the smallest one. -/
def roundScaled (s n : Nat) : Nat :=
  min (excessAt s n * 2 ^ 52 + shiftNearest n (excessAt s n + s)) infiniteBits

theorem shiftNearest_excessAt_le (s n : Nat) : shiftNearest n (excessAt s n + s) ≤ 2 ^ 53 := by
  have hlt : n / 2 ^ (excessAt s n + s) < 2 ^ 53 := by
    rw [Nat.div_lt_iff_lt_mul (Nat.two_pow_pos _), ← Nat.pow_add, ← bitLength_le_iff]
    unfold excessAt
    omega
  have := shiftNearest_le n (excessAt s n + s)
  omega

theorem le_shiftNearest_excessAt {s n : Nat} (h : 0 < excessAt s n) :
    2 ^ 52 ≤ shiftNearest n (excessAt s n + s) := by
  refine Nat.le_trans ?_ (div_le_shiftNearest n _)
  rw [Nat.le_div_iff_mul_le (Nat.two_pow_pos _), ← Nat.pow_add]
  refine two_pow_le_of_bitLength ?_
  unfold excessAt at h ⊢
  omega

theorem roundScaled_mono {s a b : Nat} (h : a ≤ b) : roundScaled s a ≤ roundScaled s b := by
  have hexcess : excessAt s a ≤ excessAt s b := Nat.sub_le_sub_right (bitLength_mono h) (53 + s)
  unfold roundScaled
  refine Nat.le_min.mpr ⟨Nat.le_trans (Nat.min_le_left ..) ?_, Nat.min_le_right ..⟩
  rcases Nat.lt_or_eq_of_le hexcess with hlt | heq
  · have hle := shiftNearest_excessAt_le s a
    have hge := le_shiftNearest_excessAt (s := s) (n := b) (by omega)
    have : (excessAt s a + 1) * 2 ^ 52 ≤ excessAt s b * 2 ^ 52 := Nat.mul_le_mul_right _ hlt
    omega
  · rw [heq]
    exact Nat.add_le_add_left (shiftNearest_mono h _) _

theorem roundScaled_zero (s : Nat) : roundScaled s 0 = 0 := by
  have hexcess : excessAt s 0 = 0 := by simp [excessAt, bitLength]
  have hshift := shiftNearest_mul 0 s
  rw [Nat.zero_mul] at hshift
  simp [roundScaled, hexcess, hshift]

/-! ## Numbers that a double holds -/

theorem roundUnits_exact {m k : Nat} (hm : m < 2 ^ 53) (h : 2 ^ 52 ≤ m ∨ k = 0) :
    roundUnits (m * 2 ^ k) = min (k * 2 ^ 52 + m) infiniteBits := by
  have hexcess : excess (m * 2 ^ k) = k := by
    unfold excess
    rcases h with h | rfl
    · have hle := bitLength_le_iff.mpr hm
      have hge : 52 < bitLength m := by
        by_contra hlt
        have := bitLength_le_iff.mp (Nat.le_of_not_lt hlt)
        omega
      rw [bitLength_mul_two_pow (by omega)]
      omega
    · rw [Nat.pow_zero, Nat.mul_one]
      have hle := bitLength_le_iff.mpr hm
      omega
  unfold roundUnits
  rw [hexcess, shiftNearest_mul]

end TransitShapes.Binary64
