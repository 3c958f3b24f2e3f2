import TransitShapes.Json.Number
import TransitShapes.Proofs.Scalar.Product

/-! # Whole numbers as doubles

A whole number below `2 ^ 64` is far below the largest double, so it is not lost on the way.
-/

namespace TransitShapes.Binary64

open Float.Model Scalar

theorem toBits_ofBits {a : UInt64} (h : a.toNat ≤ infiniteBits) : (Float.ofBits a).toBits = a := by
  have hnone : ∀ _ : @UnpackedFloat.unpackExponent Format.binary64 a.toBitVec = -1#11,
      @UnpackedFloat.unpackMantissa Format.binary64 a.toBitVec = 0 := by
    intro he
    have hexponent := congrArg BitVec.toNat he
    rw [toNat_unpackExponent] at hexponent
    have hfield : a.toNat / 2 ^ 52 % 2 ^ 11 = 2047 := hexponent
    apply BitVec.eq_of_toNat_eq
    rw [toNat_unpackMantissa]
    change a.toNat % 2 ^ 52 = 0
    unfold infiniteBits at h
    omega
  let x : Float := .ofModel ⟨a, ⟨fun he hm => absurd (hnone he) hm⟩⟩
  have hx : x.toBits.toNat = a.toNat := rfl
  have hlt : infiniteBits < 2 ^ 63 := by decide
  have hunsigned : Unsigned x := (unsigned_iff x).mpr (by omega)
  have hnumber : ¬ IsNaN x := by
    rw [isNaN_iff]
    unfold magnitude
    omega
  exact congrArg Float.toBits (pack_unpack hunsigned hnumber)

theorem toBits_nearest (significand : Nat) (exponent : Int) :
    (nearest false significand exponent).toBits.toNat = magnitudeBits significand exponent := by
  have hle := magnitudeBits_le significand exponent
  have hinfinite : infiniteBits < 2 ^ 64 := by decide
  have hnat : (UInt64.ofNat (magnitudeBits significand exponent)).toNat =
      magnitudeBits significand exponent := by
    rw [UInt64.toNat_ofNat']
    omega
  exact (congrArg UInt64.toNat (toBits_ofBits (hnat.trans_le hle))).trans hnat

/-! ## The size of a rounded whole number -/

theorem rounded_le {n : Nat} (h : n < 2 ^ 64) {target : Int}
    (ht : target = max ((0 : Int) + bitLength n - 53) (-1074)) :
    (if target ≤ 0 then n <<< (0 - target).toNat else shiftNearest n (target - 0).toNat) ≤
      2 ^ 53 := by
  have hlength : bitLength n ≤ 64 := bitLength_le_iff.mpr h
  have hlt := lt_two_pow_bitLength n
  split
  case isTrue hlow =>
    have hshift : bitLength n + (0 - target).toNat = 53 := by omega
    rw [Nat.shiftLeft_eq, ← hshift, Nat.pow_add]
    exact Nat.mul_le_mul_right _ (Nat.le_of_lt hlt)
  case isFalse hhigh =>
    have hshift : bitLength n = 53 + (target - 0).toNat := by omega
    rw [hshift, Nat.pow_add] at hlt
    have hdiv : n / 2 ^ (target - 0).toNat < 2 ^ 53 :=
      (Nat.div_lt_iff_lt_mul (Nat.two_pow_pos _)).mpr hlt
    have := shiftNearest_le n (target - 0).toNat
    omega

theorem magnitudeBits_le_of_lt {n : Nat} (h : n < 2 ^ 64) :
    magnitudeBits n 0 ≤ 1087 * 2 ^ 52 := by
  have hlength : bitLength n ≤ 64 := bitLength_le_iff.mpr h
  have hrounded := rounded_le h rfl
  unfold magnitudeBits
  simp only [Nat.shiftLeft_eq] at *
  generalize (if max ((0 : Int) + bitLength n - 53) (-1074) ≤ 0 then _ else _) = rounded at *
  split
  · exact Nat.zero_le _
  · split
    · omega
    · omega

/-! ## The double of a whole number -/

theorem magnitude_of_infinite {x : Float} {negative : Bool} (h : ofFloat x = .infinite negative) :
    magnitude x = infiniteBits := by
  have hlt := x.toBits.toNat_lt
  unfold ofFloat at h
  simp only [Nat.shiftRight_eq_div_pow, twoTo_eq] at h
  split at h
  case isTrue hfield =>
    split at h
    case isTrue hfraction =>
      unfold magnitude infiniteBits
      omega
    case isFalse => cases h
  case isFalse =>
    split at h
    · cases h
    · cases h

/-- A double above every whole number of 64 bits. -/
def beyondWhole : Float := Float.ofBits (UInt64.ofNat (1087 * 2 ^ 52))

theorem nearest_le_beyondWhole {n : Nat} (h : n < 2 ^ 64) : nearest false n 0 ≤ beyondWhole := by
  have hle := magnitudeBits_le_of_lt h
  have hbits := toBits_nearest n 0
  have htop : position beyondWhole = 1087 * 2 ^ 52 := by decide +kernel
  have hfinite : magnitude beyondWhole ≤ infiniteBits := by decide +kernel
  have hinfinite : infiniteBits = 2047 * 2 ^ 52 := rfl
  rw [le_iff, htop, position_eq]
  unfold magnitude
  rw [hbits, if_pos (by omega)]
  exact ⟨⟨by omega, hfinite⟩, by omega⟩

theorem ofFloat_nearest_mul_ne_infinite {n : Nat} (h : n < 2 ^ 64) :
    ofFloat (nearest false n 0 * Json.Number.powerOfTen 0) ≠ .infinite false := by
  intro hinfinite
  have hnumber : ¬ IsNaN (nearest false n 0 * Json.Number.powerOfTen 0) := by
    intro hnan
    rw [ofFloat_of_isNaN hnan] at hinfinite
    cases hinfinite
  have htop : Unsigned beyondWhole := (unsigned_iff _).mpr (by decide +kernel)
  have hone : Unsigned (Json.Number.powerOfTen 0) := (unsigned_iff _).mpr (by decide +kernel)
  have hle := LawfulProduct.mul_le_mul_right (unsigned_nearest n 0) htop hone
    (nearest_le_beyondWhole h) hnumber (by decide +kernel)
  have hunsigned := LawfulSign.unsigned_mul (unsigned_nearest n 0) hone
  have hproduct : position (beyondWhole * Json.Number.powerOfTen 0) < infiniteBits := by
    decide +kernel
  rw [le_iff, position_eq, if_pos ((unsigned_iff _).mp hunsigned),
    magnitude_of_infinite hinfinite] at hle
  omega

end TransitShapes.Binary64
