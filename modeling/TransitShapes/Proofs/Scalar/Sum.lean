import TransitShapes.Proofs.Scalar.Operations

/-! # Sums of doubles

The sum of two doubles without a minus sign is the double nearest to the exact sum. Rounding never
changes the order, so a longer ride never costs less. Twice a double needs no rounding, so two
doubles above it add up to more.
-/

namespace TransitShapes.Binary64

open Float.Model Float.Model.UnpackedFloat

/-! ## Doubles without a minus sign -/

section
variable {x y : Float}

theorem position_of_unsigned (hx : Scalar.Unsigned x) : position x = magnitude x := by
  rw [position_eq, if_pos ((unsigned_iff x).mp hx)]

theorem position_nonneg (hx : Scalar.Unsigned x) : 0 ≤ position x := by
  rw [position_of_unsigned hx]
  exact Int.natCast_nonneg _

theorem eq_of_position (hx : Scalar.Unsigned x) (hy : Scalar.Unsigned y)
    (h : position x = position y) : x = y := by
  rw [position_of_unsigned hx, position_of_unsigned hy] at h
  rw [unsigned_iff] at hx hy
  unfold magnitude at h
  exact eq_of_toBits (by omega)

theorem pack_unpack (hx : Scalar.Unsigned x) (hnx : ¬ Scalar.IsNaN x) :
    Float.ofModel (Float.Model.pack x.toModel.unpack) = x := by
  rw [isNaN_iff, Nat.not_lt] at hnx
  exact eq_of_position (unsigned_pack (positive_unpack hx)) hx
    (place_of_reads (reads_unpack x) hnx)

/-! ## Adding -/

theorem position_of_infinite (hx : Scalar.Unsigned x) (hnx : ¬ Scalar.IsNaN x)
    (hinf : ¬ Scalar.isFinite x) : position x = infiniteBits := by
  have hbits := natAbs_position_of_infinite hnx hinf
  have hnonneg := position_nonneg hx
  omega

theorem unpack_of_infinite (hx : Scalar.Unsigned x) (hnx : ¬ Scalar.IsNaN x)
    (hinf : ¬ Scalar.isFinite x) : x.toModel.unpack = .infinity .positive := by
  have hbits := natAbs_position_of_infinite hnx hinf
  have hreads := reads_unpack x
  unfold signOf at hreads
  rw [if_pos ((unsigned_iff x).mp hx)] at hreads
  exact hreads.eq_infinity ((natAbs_position x).symm.trans hbits)

theorem roundSigned_of_infinite {n : Int} (h : amount infiniteBits ≤ n) :
    roundSigned 0 n = infiniteBits := by
  have hmono : roundSigned 0 (amount infiniteBits) ≤ roundSigned 0 n := roundSigned_mono h
  have hbound := natAbs_roundSigned_le 0 n
  rw [roundSigned_amount (Nat.le_refl _)] at hmono
  omega

theorem add_infinity {b : Int} {v : UnpackedFloat} {sign : Sign} (hv : Amounts b v) :
    UnpackedFloat.add Format.binary64 v (.infinity sign) = .infinity sign := by
  cases hv <;> rfl

theorem position_add_of_unsigned (hx : Scalar.Unsigned x) (hnx : ¬ Scalar.IsNaN x)
    (hy : Scalar.Unsigned y) (hny : ¬ Scalar.IsNaN y) :
    position (x + y) = roundSigned 0 (amount (position x) + amount (position y)) := by
  have hxnonneg := amount_nonneg (position_nonneg hx)
  have hynonneg := amount_nonneg (position_nonneg hy)
  have hinfinite : UnpackedFloat.add Format.binary64 x.toModel.unpack y.toModel.unpack =
      .infinity .positive → position (x + y) = infiniteBits := fun hadd =>
    (congrArg place hadd).trans (place_infinity .positive)
  by_cases hfx : Scalar.isFinite x
  · by_cases hfy : Scalar.isFinite y
    · exact position_add hfx hfy
    · rw [hinfinite, roundSigned_of_infinite]
      · rw [position_of_infinite hy hny hfy]
        omega
      · rw [unpack_of_infinite hy hny hfy]
        exact add_infinity (amounts_unpack hfx)
  · rw [hinfinite, roundSigned_of_infinite]
    · rw [position_of_infinite hx hnx hfx]
      omega
    · rw [unpack_of_infinite hx hnx hfx]
      by_cases hfy : Scalar.isFinite y
      · exact infinity_add (amounts_unpack hfy)
      · rw [unpack_of_infinite hy hny hfy]
        rfl

theorem isNaN_add_iff (hx : Scalar.Unsigned x) (hy : Scalar.Unsigned y) :
    Scalar.IsNaN (x + y) ↔ Scalar.IsNaN x ∨ Scalar.IsNaN y := by
  refine ⟨fun hsum => ?_, isNaN_add⟩
  by_contra hnot
  obtain ⟨hnx, hny⟩ := not_or.mp hnot
  refine (isNumber_iff (x + y)).mpr ?_ hsum
  rw [position_add_of_unsigned hx hnx hy hny]
  exact natAbs_roundSigned_le _ _

theorem add_comm_of_unsigned (hx : Scalar.Unsigned x) (hy : Scalar.Unsigned y)
    (hnx : ¬ Scalar.IsNaN x) (hny : ¬ Scalar.IsNaN y) : x + y = y + x := by
  apply eq_of_position (Scalar.LawfulSign.unsigned_add hx hy) (Scalar.LawfulSign.unsigned_add hy hx)
  rw [position_add_of_unsigned hx hnx hy hny, position_add_of_unsigned hy hny hx hnx,
    Int.add_comm]

end

end TransitShapes.Binary64

namespace TransitShapes

open Scalar Binary64

/-- Rounding keeps the order, so the sums of doubles keep it. -/
instance : LawfulSum Float where
  isNaN_add := isNaN_add_iff
  le_sum {a b} ha hb hna hnb := by
    have hbits := (isNumber_iff a).mp hna
    rw [le_iff_position, position_add_of_unsigned ha hna hb hnb]
    refine ⟨⟨hbits, natAbs_roundSigned_le _ _⟩, ?_⟩
    calc position a = roundSigned 0 (amount (position a)) := (roundSigned_amount hbits).symm
      _ ≤ roundSigned 0 (amount (position a) + amount (position b)) :=
          roundSigned_mono (Int.le_add_of_nonneg_right (amount_nonneg (position_nonneg hb)))
  sum_le_sum {a b c} ha hb hc hnc h := by
    have ⟨hna, hnb⟩ := LawfulOrder.isNumber_of_le h
    rw [le_iff_position] at h
    rw [le_iff_position, position_add_of_unsigned ha hna hc hnc,
      position_add_of_unsigned hb hnb hc hnc]
    exact ⟨⟨natAbs_roundSigned_le _ _, natAbs_roundSigned_le _ _⟩,
      roundSigned_mono (Int.add_le_add_right (amount_mono h.1.1 h.1.2 h.2) _)⟩

end TransitShapes

namespace TransitShapes.Binary64

/-! ## Twice a double -/

/-- The bits of twice a double with these bits. -/
def doubledBits (k : Nat) : Nat := min (if k < 2 ^ 52 then 2 * k else k + 2 ^ 52) infiniteBits

theorem doubledBits_lt {j k : Nat} (hjk : j < k) (hj : doubledBits j < infiniteBits) :
    doubledBits j < doubledBits k := by
  unfold doubledBits at *
  generalize infiniteBits = top at *
  split at hj
  case isTrue hsmall =>
    rw [if_pos hsmall]
    split <;> omega
  case isFalse hnormal =>
    rw [if_neg hnormal, if_neg (by omega)]
    omega

theorem roundUnits_double {k : Nat} (hk : k ≤ infiniteBits) :
    roundUnits (units k + units k) = doubledBits k := by
  obtain ⟨m, t, hlt, hor, rfl⟩ := exists_significand k
  unfold doubledBits
  rw [units_eq hlt hor]
  rcases Nat.lt_or_ge m (2 ^ 52) with hsmall | hnormal
  · have ht : t = 0 := by omega
    subst ht
    have hexact := roundUnits_exact (m := m + m) (k := 0) (by omega) (Or.inr rfl)
    rw [Nat.add_mul] at hexact
    rw [hexact]
    split <;> omega
  · have hexact := roundUnits_exact (k := t + 1) hlt (Or.inl hnormal)
    have hscale : m * 2 ^ (t + 1) = m * 2 ^ t + m * 2 ^ t := by
      rw [Nat.pow_succ, ← Nat.mul_assoc, Nat.mul_two]
    rw [← hscale, hexact]
    split <;> omega

theorem position_double {d : Float} (hd : Scalar.Unsigned d) (hnd : ¬ Scalar.IsNaN d) :
    position (d + d) = doubledBits (magnitude d) := by
  have hbits := (isNumber_iff d).mp hnd
  rw [natAbs_position] at hbits
  rw [position_add_of_unsigned hd hnd hd hnd, position_of_unsigned hd, ← roundUnits_double hbits]
  exact roundSigned_apply 0 .positive (units (magnitude d) + units (magnitude d))

theorem double_lt_add_of_le {a b d : Float} (hd : Scalar.Unsigned d) (ha : Scalar.Unsigned a)
    (hb : Scalar.Unsigned b) (hfinite : Scalar.isFinite (d + d)) (hda : d < a) (hab : a ≤ b) :
    d + d < a + b := by
  obtain ⟨hnd, hna⟩ := Scalar.LawfulOrder.isNumber_of_le (Scalar.le_of_lt hda)
  obtain ⟨-, hnb⟩ := Scalar.LawfulOrder.isNumber_of_le hab
  have hbelow := (lt_iff_position hnd hna).mp hda
  have hmono : position (a + a) ≤ position (a + b) := by
    rw [le_iff_position] at hab
    rw [position_add_of_unsigned ha hna ha hna, position_add_of_unsigned ha hna hb hnb]
    exact roundSigned_mono (Int.add_le_add_left (amount_mono hab.1.1 hab.1.2 hab.2) _)
  rw [isFinite_iff, position_double hd hnd, Int.natAbs_natCast] at hfinite
  have hndd : ¬ Scalar.IsNaN (d + d) := by
    rw [isNaN_add_iff hd hd]
    exact not_or.mpr ⟨hnd, hnd⟩
  have hnab : ¬ Scalar.IsNaN (a + b) := by
    rw [isNaN_add_iff ha hb]
    exact not_or.mpr ⟨hna, hnb⟩
  rw [position_double ha hna] at hmono
  rw [position_of_unsigned hd, position_of_unsigned ha] at hbelow
  rw [lt_iff_position hndd hnab, position_double hd hnd]
  have hlt := doubledBits_lt (by omega : magnitude d < magnitude a) hfinite
  omega

end TransitShapes.Binary64

namespace TransitShapes

open Scalar Binary64

instance : LawfulDoubling Float where
  add_comm := add_comm_of_unsigned
  double_lt_add {a b d} hd hfinite hda hdb := by
    have ha := hd.of_lt hda
    have hb := hd.of_lt hdb
    have ⟨_, hna⟩ := LawfulOrder.isNumber_of_le (le_of_lt hda)
    have ⟨_, hnb⟩ := LawfulOrder.isNumber_of_le (le_of_lt hdb)
    rcases LawfulOrder.le_total hna hnb with hab | hba
    · exact double_lt_add_of_le hd ha hb hfinite hda hab
    · rw [add_comm_of_unsigned ha hb hna hnb]
      exact double_lt_add_of_le hd hb ha hfinite hdb hba

end TransitShapes
