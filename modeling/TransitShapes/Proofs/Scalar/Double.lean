import TransitShapes.Proofs.Scalar.Bits
import TransitShapes.Proofs.Scalar.Laws

/-! # Doubles keep their order and their signs -/

namespace TransitShapes

open Scalar Binary64

/-! ## Order -/

namespace Binary64

theorem position_eq (x : Float) : position x =
    if x.toBits.toNat < 2 ^ 63 then (magnitude x : Int) else -(magnitude x : Int) := by
  unfold position signOf
  split <;> rfl

theorem isNaN_iff (x : Float) : IsNaN x ↔ infiniteBits < magnitude x := by
  unfold IsNaN
  rw [le_iff]
  omega

theorem ofFloat_of_isNaN {x : Float} (h : IsNaN x) : ofFloat x = .nan :=
  (ofFloat_eq_nan_iff x).mpr ((isNaN_iff x).mp h)

theorem total_isLE_iff (x y : Float) : (Scalar.total x y).isLE ↔ rank x ≤ rank y :=
  Int.isLE_compare

theorem total_eq_iff (x y : Float) : Scalar.total x y = .eq ↔ x = y := by
  refine ⟨fun h => rank_injective (Int.compare_eq_eq.mp h), ?_⟩
  rintro rfl
  exact Std.ReflCmp.compare_self

end Binary64

instance : LawfulOrder Float where
  isNumber_of_le {a b} h := by
    rw [le_iff] at h
    rw [isNaN_iff, isNaN_iff]
    omega
  le_trans {a b c} hab hbc := by
    rw [le_iff] at *
    omega
  le_total {a b} ha hb := by
    rw [isNaN_iff] at ha hb
    rw [le_iff, le_iff]
    omega
  lt_iff {a b} := by
    rw [lt_iff, le_iff, le_iff]
    omega
  le_of_total {a b} ha hb h := by
    rw [isNaN_iff] at ha hb
    rw [total_isLE_iff, rank_eq, rank_eq] at h
    rw [le_iff, position_eq, position_eq]
    refine ⟨by omega, ?_⟩
    split at h <;> split at h <;> simp only [*, if_true, if_false] <;> omega

/-! ## Signs -/

namespace Binary64

open Float.Model Float.Model.UnpackedFloat

theorem Reads.positive {k : Nat} {u : UnpackedFloat} (h : Reads .positive k u) : Positive u := by
  cases h with
  | zero => rfl
  | finite => rfl
  | infinite => rfl
  | nan => trivial

theorem unsigned_iff (x : Float) : Unsigned x ↔ x.toBits.toNat < 2 ^ 63 := by
  have hzero : rank 0.0 = 0 := by decide +kernel
  unfold Unsigned
  rw [total_isLE_iff, hzero, rank_eq, isNaN_iff]
  constructor
  · rintro (hnan | hrank)
    · exact lt_of_signOf ((reads_unpack x).of_nan hnan).1
    · split at hrank <;> omega
  · intro hlt
    rw [if_pos hlt]
    exact Or.inr (Int.natCast_nonneg _)

theorem positive_unpack {x : Float} (h : Unsigned x) : Positive x.toModel.unpack := by
  have hx := reads_unpack x
  rw [unsigned_iff] at h
  unfold signOf at hx
  rw [if_pos h] at hx
  exact hx.positive

theorem unsigned_pack {u : UnpackedFloat} (h : Positive u) :
    Unsigned (Float.ofModel (Float.Model.pack u)) :=
  (unsigned_iff _).mpr (toNat_pack_lt h)

theorem positive_roundWithAccuracy (m : Nat) (e : Int) (accuracy : Accuracy) :
    Positive (roundWithAccuracy Format.binary64 .positive m e accuracy) := by
  unfold roundWithAccuracy
  simp only
  split <;> rfl

theorem positive_mul_self (u : UnpackedFloat) :
    Positive (UnpackedFloat.mul Format.binary64 u u) := by
  have hsign : ∀ s : Sign, s * s = .positive := fun s => by cases s <;> rfl
  cases u with
  | notANumber => trivial
  | infinity s => exact hsign s
  | zero s => exact hsign s
  | finite s m e hm =>
    simp only [UnpackedFloat.mul, hsign]
    exact positive_roundWithAccuracy _ _ _

theorem positive_mul {u v : UnpackedFloat} (hu : Positive u) (hv : Positive v) :
    Positive (UnpackedFloat.mul Format.binary64 u v) := by
  cases u <;> cases v <;> cases hu <;> cases hv <;>
    first
    | trivial
    | rfl
    | exact positive_roundWithAccuracy _ _ _

theorem positive_normalize {m : Int} (h : 0 ≤ m) (e : Int) :
    Positive (UnpackedFloat.normalize Format.binary64 m e .positive) := by
  unfold UnpackedFloat.normalize
  split
  case h_1 hlt =>
    have := Int.compare_eq_lt.mp hlt
    omega
  case h_2 => rfl
  case h_3 => exact positive_roundWithAccuracy _ _ _

theorem positive_add {u v : UnpackedFloat} (hu : Positive u) (hv : Positive v) :
    Positive (UnpackedFloat.add Format.binary64 u v) := by
  cases u <;> cases v <;> cases hu <;> cases hv <;>
    first
    | trivial
    | rfl
    | exact positive_normalize (Int.add_nonneg (Int.natCast_nonneg _) (Int.natCast_nonneg _)) _

theorem positive_sqrt {u : UnpackedFloat} (hu : Positive u) :
    Positive (UnpackedFloat.sqrt Format.binary64 u) := by
  cases u <;> cases hu <;>
    first
    | trivial
    | rfl
    | exact positive_roundWithAccuracy _ _ _

theorem positive_unpack_of_lt {b : BitVec 64} (h : b.toNat < 2 ^ 63) :
    Positive (UnpackedFloat.unpack Format.binary64 b) := by
  have hsign := ofBitVec_unpackSign b
  rw [if_pos h] at hsign
  simp only [UnpackedFloat.unpack, hsign]
  split
  · split
    · rfl
    · trivial
  · split
    · split <;> rfl
    · rfl

theorem magnitudeBits_le (significand : Nat) (exponent : Int) :
    magnitudeBits significand exponent ≤ infiniteBits := by
  have hcases : ∀ (rounded : Nat) (target : Int),
      (if rounded = 0 then 0
        else if 972 ≤ target then 2047 <<< 52
        else min ((target + 1074).toNat <<< 52 + rounded) (2047 <<< 52)) ≤ infiniteBits := by
    intro rounded target
    split
    · exact Nat.zero_le _
    · split
      · exact Nat.le_refl _
      · exact Nat.min_le_right _ _
  exact hcases _ _

theorem unsigned_nearest (significand : Nat) (exponent : Int) :
    Unsigned (nearest false significand exponent) := by
  refine unsigned_pack (positive_unpack_of_lt ?_)
  have hbits := magnitudeBits_le significand exponent
  have hinfinite : infiniteBits < 2 ^ 63 := by decide
  have hlt : magnitudeBits significand exponent < 2 ^ 63 := by omega
  change magnitudeBits significand exponent % 2 ^ 64 < 2 ^ 63
  omega

theorem unsigned_nan : Unsigned Elementary.nan :=
  (unsigned_iff _).mpr (by decide +kernel)

theorem isNaN_nan : IsNaN Elementary.nan := (isNaN_iff _).mpr (by decide +kernel)

theorem ofFloat_of_unsigned {x : Float} (h : Unsigned x) :
    ofFloat x = .nan ∨ ofFloat x = .infinite false ∨ ∃ m e, ofFloat x = .finite false m e := by
  rw [unsigned_iff] at h
  have hsign : (x.toBits.toNat >>> 63 == 1) = false := by
    rw [Nat.shiftRight_eq_div_pow, beq_eq_false_iff_ne]
    omega
  unfold ofFloat
  simp only [hsign]
  split
  · split
    · exact Or.inr (Or.inl rfl)
    · exact Or.inl rfl
  · split
    · exact Or.inr (Or.inr ⟨_, _, rfl⟩)
    · exact Or.inr (Or.inr ⟨_, _, rfl⟩)

theorem unsigned_atan2 {y : Float} (x : Float) (h : Unsigned y) :
    Unsigned (Elementary.atan2 y x) := by
  unfold Elementary.atan2
  rcases ofFloat_of_unsigned h with hy | hy | ⟨m, e, hy⟩ <;> rw [hy]
  · exact unsigned_nan
  · cases ofFloat x with
    | nan => exact unsigned_nan
    | infinite => exact unsigned_nearest _ _
    | finite => exact unsigned_nearest _ _
  · cases ofFloat x with
    | nan => exact unsigned_nan
    | infinite => exact unsigned_nearest _ _
    | finite =>
      simp only
      split
      · exact unsigned_nearest _ _
      · exact unsigned_nearest _ _

theorem rank_of_unsigned {x : Float} (h : Unsigned x) : rank x = (magnitude x : Int) := by
  rw [rank_eq, if_pos ((unsigned_iff x).mp h)]

end Binary64

instance : LawfulSign Float where
  zero_le_zero := by decide +kernel
  total_of_le {a b} ha hb hab := by
    rw [total_isLE_iff, rank_of_unsigned ha, rank_of_unsigned hb]
    rw [unsigned_iff] at ha hb
    rw [le_iff, position_eq, position_eq, if_pos ha, if_pos hb] at hab
    exact hab.2
  unsigned_mul_self a := unsigned_pack (positive_mul_self _)
  unsigned_mul ha hb := unsigned_pack (positive_mul (positive_unpack ha) (positive_unpack hb))
  unsigned_add ha hb := unsigned_pack (positive_add (positive_unpack ha) (positive_unpack hb))
  unsigned_sqrt ha := unsigned_pack (positive_sqrt (positive_unpack ha))
  unsigned_atan2 x hy := unsigned_atan2 x hy
  unsigned_globeRadius := (unsigned_iff _).mpr (by decide +kernel)

end TransitShapes
