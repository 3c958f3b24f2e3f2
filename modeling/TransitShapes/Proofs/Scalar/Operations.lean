import TransitShapes.Proofs.Scalar.Signed

/-! # Operations on doubles

Between finite doubles an operation is the exact one on their units, rounded. An infinite double
stays where it is, and what is not a number makes no number.
-/

namespace TransitShapes.Binary64

open Float.Model Float.Model.UnpackedFloat

/-! ## What is not a number -/

theorem unpack_eq_notANumber_iff (x : Float) :
    x.toModel.unpack = .notANumber ↔ Scalar.IsNaN x := by
  rw [isNaN_iff]
  have hx := reads_unpack x
  constructor
  · intro h
    rw [h] at hx
    generalize signOf x = s, magnitude x = k at hx
    cases hx with
    | nan => exact infiniteBits_lt_nanBits
  · intro h
    by_contra hne
    have := hx.le_infiniteBits hne
    omega

theorem isNaN_of_pack_notANumber {x : Float} (h : x = .ofModel (.pack .notANumber)) :
    Scalar.IsNaN x := by
  subst h
  rw [isNaN_iff]
  decide

theorem isNaN_of_unpack {x : Float} {f : UnpackedFloat → UnpackedFloat} (hx : Scalar.IsNaN x)
    (hf : f .notANumber = .notANumber) :
    Scalar.IsNaN (Float.ofModel (Float.Model.pack (f x.toModel.unpack))) := by
  rw [(unpack_eq_notANumber_iff x).mpr hx, hf]
  exact isNaN_of_pack_notANumber rfl

theorem add_notANumber (u : UnpackedFloat) :
    UnpackedFloat.add Format.binary64 u .notANumber = .notANumber := by
  cases u <;> rfl

theorem isNaN_add {a b : Float} (h : Scalar.IsNaN a ∨ Scalar.IsNaN b) : Scalar.IsNaN (a + b) := by
  rcases h with ha | hb
  · exact isNaN_of_unpack (f := (UnpackedFloat.add _ · b.toModel.unpack)) ha rfl
  · exact isNaN_of_unpack hb (add_notANumber _)

theorem isNaN_sub_left {a : Float} (b : Float) (ha : Scalar.IsNaN a) : Scalar.IsNaN (a - b) :=
  isNaN_of_unpack (f := (UnpackedFloat.sub _ · b.toModel.unpack)) ha rfl

theorem mul_notANumber (u : UnpackedFloat) :
    UnpackedFloat.mul Format.binary64 u .notANumber = .notANumber := by
  cases u <;> rfl

theorem isNaN_mul_left {a : Float} (b : Float) (ha : Scalar.IsNaN a) : Scalar.IsNaN (a * b) :=
  isNaN_of_unpack (f := (UnpackedFloat.mul _ · b.toModel.unpack)) ha rfl

theorem isNaN_mul_right (a : Float) {b : Float} (hb : Scalar.IsNaN b) : Scalar.IsNaN (a * b) :=
  isNaN_of_unpack hb (mul_notANumber _)

theorem div_notANumber (u : UnpackedFloat) :
    UnpackedFloat.div Format.binary64 u .notANumber = .notANumber := by
  cases u <;> rfl

theorem isNaN_div {a b : Float} (h : Scalar.IsNaN a ∨ Scalar.IsNaN b) : Scalar.IsNaN (a / b) := by
  rcases h with ha | hb
  · exact isNaN_of_unpack (f := (UnpackedFloat.div _ · b.toModel.unpack)) ha rfl
  · exact isNaN_of_unpack hb (div_notANumber _)

/-! ## Finite and infinite doubles -/

theorem isFinite_iff (x : Float) : Scalar.isFinite x ↔ (position x).natAbs < infiniteBits := by
  have hfield : (position x).natAbs < infiniteBits ↔ x.toBits.toNat / 2 ^ 52 % 2048 ≠ 2047 := by
    have hlt := x.toBits.toNat_lt
    rw [natAbs_position]
    unfold magnitude infiniteBits
    omega
  rw [hfield]
  simp only [Scalar.isFinite]
  unfold ofFloat
  simp only [Nat.shiftRight_eq_div_pow]
  generalize x.toBits.toNat / 2 ^ 52 % 2048 = field
  generalize x.toBits.toNat % twoTo 52 = fraction
  by_cases htop : field = 2047
  · rw [if_pos htop]
    by_cases hzero : fraction = 0
    · simp [hzero, htop]
    · simp [hzero, htop]
  · rw [if_neg htop]
    by_cases hzero : field = 0
    · simp [hzero]
    · simp [hzero, htop]

theorem isFinite_of_between {a b c : Float} (ha : Scalar.isFinite a) (hc : Scalar.isFinite c)
    (hab : a ≤ b) (hbc : b ≤ c) : Scalar.isFinite b := by
  rw [le_iff_position] at hab hbc
  rw [isFinite_iff] at *
  omega

theorem position_zero : position 0.0 = 0 := by decide +kernel

theorem position_nonneg_iff {x : Float} :
    0.0 ≤ x ↔ (position x).natAbs ≤ infiniteBits ∧ 0 ≤ position x := by
  rw [le_iff_position, position_zero]
  exact and_congr_left' (and_iff_right (Nat.zero_le _))

theorem natAbs_position_of_infinite {x : Float} (hx : ¬ Scalar.IsNaN x)
    (hinf : ¬ Scalar.isFinite x) : (position x).natAbs = infiniteBits := by
  rw [isNumber_iff] at hx
  rw [isFinite_iff] at hinf
  omega

theorem Reads.amounts {sign : Sign} {k : Nat} {u : UnpackedFloat} (h : Reads sign k u)
    (hk : k < infiniteBits) : Amounts (amount (sign.apply k)) u := by
  rw [amount_apply]
  cases h with
  | zero =>
    have hzero : sign.apply (units 0 : Nat) = 0 := by cases sign <;> rfl
    rw [hzero]
    exact .zero
  | finite hm hlt hor he hsum =>
    subst he hsum
    rw [units_eq hlt hor]
    exact .finite hm hlt hor
  | infinite => exact absurd hk (Nat.lt_irrefl _)
  | nan => exact absurd hk (by decide)

theorem amounts_unpack {x : Float} (h : Scalar.isFinite x) :
    Amounts (amount (position x)) x.toModel.unpack := by
  rw [isFinite_iff, natAbs_position] at h
  exact (reads_unpack x).amounts h

theorem Reads.eq_infinity {sign : Sign} {k : Nat} {u : UnpackedFloat} (h : Reads sign k u)
    (hk : k = infiniteBits) : u = .infinity sign := by
  cases h with
  | zero => exact absurd hk (by decide)
  | finite _ _ _ _ _ hlt => omega
  | infinite => rfl
  | nan => exact absurd hk (by decide)

theorem place_of_reads {sign : Sign} {k : Nat} {u : UnpackedFloat} (h : Reads sign k u)
    (hk : k ≤ infiniteBits) : place u = sign.apply k := by
  rcases Nat.lt_or_eq_of_le hk with hlt | heq
  · rw [place_of_amounts (h.amounts hlt), roundSigned_amount ((natAbs_apply sign k).trans_le hk)]
  · rw [h.eq_infinity heq, place_infinity, heq]

theorem Reads.neg {sign : Sign} {k : Nat} {u : UnpackedFloat} (h : Reads sign k u)
    (hk : k ≤ infiniteBits) : Reads (-sign) k u.neg := by
  cases h with
  | zero => exact .zero
  | finite hm hlt hor he hsum hsmall => exact .finite hm hlt hor he hsum hsmall
  | infinite => exact .infinite
  | nan => exact absurd hk (by decide)

theorem place_of_infinite {x : Float} {f : UnpackedFloat → UnpackedFloat} (hx : ¬ Scalar.IsNaN x)
    (hinf : ¬ Scalar.isFinite x) (hf : ∀ sign, f (.infinity sign) = .infinity sign) :
    place (f x.toModel.unpack) = position x := by
  have hbits := natAbs_position_of_infinite hx hinf
  rw [natAbs_position] at hbits
  rw [(reads_unpack x).eq_infinity hbits, hf, place_infinity, ← hbits]
  rfl

/-! ## Sums, differences and products -/

section
variable {b : Int} {v : UnpackedFloat} {sign : Sign}

theorem infinity_add (hv : Amounts b v) :
    UnpackedFloat.add Format.binary64 (.infinity sign) v = .infinity sign := by
  cases hv <;> rfl

theorem infinity_sub (hv : Amounts b v) :
    UnpackedFloat.sub Format.binary64 (.infinity sign) v = .infinity sign := by
  cases hv <;> rfl

theorem infinity_mul (hv : Amounts b v) (hb : 0 < b) :
    UnpackedFloat.mul Format.binary64 (.infinity sign) v = .infinity sign := by
  cases hv with
  | zero => exact absurd hb (Int.lt_irrefl 0)
  | @finite s =>
    cases s with
    | positive => cases sign <;> rfl
    | negative =>
      rw [Sign.apply] at hb
      omega

end

section
variable {x y : Float}

theorem position_add (hx : Scalar.isFinite x) (hy : Scalar.isFinite y) :
    position (x + y) = roundSigned 0 (amount (position x) + amount (position y)) :=
  place_add (amounts_unpack hx) (amounts_unpack hy)

theorem position_sub (hx : Scalar.isFinite x) (hy : Scalar.isFinite y) :
    position (x - y) = roundSigned 0 (amount (position x) - amount (position y)) :=
  place_sub (amounts_unpack hx) (amounts_unpack hy)

theorem position_mul (hx : Scalar.isFinite x) (hy : Scalar.isFinite y) :
    position (x * y) = roundSigned 1074 (amount (position x) * amount (position y)) :=
  place_mul (amounts_unpack hx) (amounts_unpack hy)

theorem position_add_of_infinite (hx : ¬ Scalar.IsNaN x) (hinf : ¬ Scalar.isFinite x)
    (hy : Scalar.isFinite y) : position (x + y) = position x :=
  place_of_infinite (f := (UnpackedFloat.add _ · y.toModel.unpack)) hx hinf fun _ =>
    infinity_add (amounts_unpack hy)

theorem position_sub_of_infinite (hx : ¬ Scalar.IsNaN x) (hinf : ¬ Scalar.isFinite x)
    (hy : Scalar.isFinite y) : position (x - y) = position x :=
  place_of_infinite (f := (UnpackedFloat.sub _ · y.toModel.unpack)) hx hinf fun _ =>
    infinity_sub (amounts_unpack hy)

theorem position_mul_of_infinite (hx : ¬ Scalar.IsNaN x) (hinf : ¬ Scalar.isFinite x)
    (hy : Scalar.isFinite y) (hpos : 0 < amount (position y)) : position (x * y) = position x :=
  place_of_infinite (f := (UnpackedFloat.mul _ · y.toModel.unpack)) hx hinf fun _ =>
    infinity_mul (amounts_unpack hy) hpos

end

end TransitShapes.Binary64
