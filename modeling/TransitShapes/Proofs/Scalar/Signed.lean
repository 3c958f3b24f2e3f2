import TransitShapes.Proofs.Scalar.Packed

/-! # Doubles of both signs

A finite double is a whole number of units with a sign. Sums, differences and products of such
numbers are rounded alike on both sides of zero, so a larger double gives no smaller result.
-/

namespace TransitShapes.Binary64

open Float.Model Float.Model.UnpackedFloat

/-! ## Both sides of zero -/

/-- A function of whole numbers that takes the sign along. -/
def mirrored (f : Nat → Nat) (n : Int) : Int := if n < 0 then -(f n.natAbs : Int) else f n.natAbs

section
variable {f : Nat → Nat} {a b : Int}

theorem mirrored_mono (hf : ∀ {m n}, m ≤ n → f m ≤ f n) (h : a ≤ b) :
    mirrored f a ≤ mirrored f b := by
  unfold mirrored
  split
  case isTrue ha =>
    split
    case isTrue hb =>
      have : f b.natAbs ≤ f a.natAbs := hf (by omega)
      omega
    case isFalse => omega
  case isFalse ha =>
    rw [if_neg (by omega)]
    have : f a.natAbs ≤ f b.natAbs := hf (by omega)
    omega

theorem mirrored_apply (hf : f 0 = 0) (sign : Sign) (n : Nat) :
    mirrored f (sign.apply n) = sign.apply (f n) := by
  unfold mirrored
  cases sign with
  | positive => rw [Sign.apply, if_neg (by omega), Int.natAbs_natCast, Sign.apply]
  | negative =>
    rw [Sign.apply, Sign.apply, Int.natAbs_neg, Int.natAbs_natCast]
    rcases Nat.eq_zero_or_pos n with rfl | hn
    · rw [hf]
      rfl
    · rw [if_pos (by omega)]

theorem mirrored_nonneg (h : 0 ≤ a) : 0 ≤ mirrored f a := by
  unfold mirrored
  rw [if_neg (by omega)]
  exact Int.natCast_nonneg _

theorem natAbs_apply (sign : Sign) (n : Nat) : (sign.apply n).natAbs = n := by
  cases sign <;> simp [Sign.apply]

theorem exists_apply (n : Int) : ∃ sign : Sign, sign.apply n.natAbs = n := by
  rcases Int.le_total 0 n with h | h
  · exact ⟨.positive, Int.natAbs_of_nonneg h⟩
  · refine ⟨.negative, ?_⟩
    change -(n.natAbs : Int) = n
    omega

theorem apply_neg (sign : Sign) (n : Int) : (-sign).apply n = -sign.apply n := by
  cases sign with
  | positive => rfl
  | negative => exact (Int.neg_neg n).symm

theorem apply_mul (s s' : Sign) (m n : Int) : (s * s').apply (m * n) = s.apply m * s'.apply n := by
  cases s <;> cases s'
  · exact (Int.neg_mul_neg m n).symm
  · exact (Int.neg_mul m n).symm
  · exact (Int.mul_neg m n).symm
  · rfl

theorem apply_natCast_mul (sign : Sign) (m n : Nat) :
    sign.apply (m * n : Nat) = sign.apply m * n := by
  cases sign with
  | positive => exact Nat.cast_mul m n
  | negative =>
    rw [Sign.apply, Sign.apply, Nat.cast_mul]
    exact (Int.neg_mul _ _).symm

end

/-- Where the double nearest to `n / 2 ^ s` of the smallest one stands. -/
def roundSigned (s : Nat) : Int → Int := mirrored (roundScaled s)

theorem roundSigned_mono {s : Nat} {a b : Int} (h : a ≤ b) : roundSigned s a ≤ roundSigned s b :=
  mirrored_mono roundScaled_mono h

theorem roundSigned_apply (s : Nat) (sign : Sign) (n : Nat) :
    roundSigned s (sign.apply n) = sign.apply (roundScaled s n) :=
  mirrored_apply (roundScaled_zero s) sign n

theorem natAbs_roundSigned_le (s : Nat) (n : Int) : (roundSigned s n).natAbs ≤ infiniteBits := by
  obtain ⟨sign, hsign⟩ := exists_apply n
  rw [← hsign, roundSigned_apply, natAbs_apply]
  exact Nat.min_le_right _ _

/-! ## The number that a double stands for -/

/-- How many units the double with these bits stands for. -/
def units (k : Nat) : Nat :=
  if k < 2 ^ 52 then k else (2 ^ 52 + k % 2 ^ 52) * 2 ^ (k / 2 ^ 52 - 1)

theorem units_eq {m t : Nat} (hlt : m < 2 ^ 53) (hor : 2 ^ 52 ≤ m ∨ t = 0) :
    units (t * 2 ^ 52 + m) = m * 2 ^ t := by
  unfold units
  split
  case isTrue hsmall =>
    have ht : t = 0 := by omega
    rw [ht, Nat.zero_mul, Nat.zero_add, Nat.pow_zero, Nat.mul_one]
  case isFalse =>
    have hmod : 2 ^ 52 + (t * 2 ^ 52 + m) % 2 ^ 52 = m := by omega
    have hdiv : (t * 2 ^ 52 + m) / 2 ^ 52 - 1 = t := by omega
    rw [hmod, hdiv]

theorem exists_significand (k : Nat) :
    ∃ m t, m < 2 ^ 53 ∧ (2 ^ 52 ≤ m ∨ t = 0) ∧ t * 2 ^ 52 + m = k := by
  rcases Nat.lt_or_ge k (2 ^ 52) with h | h
  · exact ⟨k, 0, by omega, Or.inr rfl, by omega⟩
  · exact ⟨2 ^ 52 + k % 2 ^ 52, k / 2 ^ 52 - 1, by omega, Or.inl (by omega), by omega⟩

theorem roundUnits_units {k : Nat} (h : k ≤ infiniteBits) : roundUnits (units k) = k := by
  obtain ⟨m, t, hlt, hor, rfl⟩ := exists_significand k
  rw [units_eq hlt hor, roundUnits_exact hlt hor, Nat.min_eq_left h]

/-- The number of units at a place among the doubles. -/
def amount : Int → Int := mirrored units

theorem amount_apply (sign : Sign) (k : Nat) : amount (sign.apply k) = sign.apply (units k) :=
  mirrored_apply rfl sign k

theorem roundSigned_amount {p : Int} (h : p.natAbs ≤ infiniteBits) :
    roundSigned 0 (amount p) = p := by
  obtain ⟨sign, hsign⟩ := exists_apply p
  rw [← hsign, amount_apply, roundSigned_apply]
  exact congrArg (fun k : Nat => sign.apply k) (roundUnits_units h)

theorem amount_mono {p q : Int} (hp : p.natAbs ≤ infiniteBits) (hq : q.natAbs ≤ infiniteBits)
    (h : p ≤ q) : amount p ≤ amount q := by
  -- Rounding gives the places back in their order, so fewer units are not at a later place.
  by_contra hlt
  have hmono : roundSigned 0 (amount q) ≤ roundSigned 0 (amount p) :=
    roundSigned_mono (Int.le_of_lt (Int.not_le.mp hlt))
  rw [roundSigned_amount hp, roundSigned_amount hq] at hmono
  exact hlt (Int.le_of_eq (congrArg amount (Int.le_antisymm h hmono)))

theorem amount_nonneg {p : Int} (h : 0 ≤ p) : 0 ≤ amount p := mirrored_nonneg h

theorem natAbs_position (x : Float) : (position x).natAbs = magnitude x := natAbs_apply _ _

theorem isNumber_iff (x : Float) : ¬ Scalar.IsNaN x ↔ (position x).natAbs ≤ infiniteBits := by
  rw [isNaN_iff, natAbs_position, Nat.not_lt]

theorem le_iff_position (x y : Float) : x ≤ y ↔ ((position x).natAbs ≤ infiniteBits ∧
    (position y).natAbs ≤ infiniteBits) ∧ position x ≤ position y := by
  rw [le_iff, natAbs_position, natAbs_position]

theorem lt_iff_position {x y : Float} (hx : ¬ Scalar.IsNaN x) (hy : ¬ Scalar.IsNaN y) :
    x < y ↔ position x < position y := by
  rw [isNaN_iff] at hx hy
  rw [lt_iff]
  omega

/-! ## Unpacked doubles -/

/-- Where an unpacked double stands once it is packed. -/
def place (u : UnpackedFloat) : Int := position (Float.ofModel (Float.Model.pack u))

theorem place_eq {u : UnpackedFloat} {sign : Sign} {k : Nat}
    (h : (UnpackedFloat.pack Format.binary64 u).toNat = sign.toBitVec.toNat * 2 ^ 63 + k)
    (hk : k ≤ infiniteBits) : place u = sign.apply k := by
  have hbits : (Float.ofModel (Float.Model.pack u)).toBits.toNat =
      sign.toBitVec.toNat * 2 ^ 63 + k := h
  have hinfinite : infiniteBits < 2 ^ 63 := by decide
  unfold place
  rw [position_eq]
  unfold magnitude
  rw [hbits]
  cases sign with
  | positive =>
    have hplus : Sign.positive.toBitVec.toNat = 0 := rfl
    rw [hplus, Nat.zero_mul, Nat.zero_add, if_pos (by omega), Nat.mod_eq_of_lt (by omega)]
    rfl
  | negative =>
    have hminus : Sign.negative.toBitVec.toNat = 1 := rfl
    rw [hminus, Nat.one_mul, if_neg (by omega), Nat.add_mod_left, Nat.mod_eq_of_lt (by omega)]
    rfl

theorem place_zero (sign : Sign) : place (.zero sign) = 0 := by
  cases sign <;> decide +kernel

theorem place_infinity (sign : Sign) : place (.infinity sign) = sign.apply infiniteBits := by
  cases sign <;> decide +kernel

theorem place_finite {sign : Sign} {m t : Nat} (hm : 0 < m) (hlt : m < 2 ^ 53)
    (hor : 2 ^ 52 ≤ m ∨ t = 0) : place (.finite sign m ((t : Int) - 1074) hm) =
      sign.apply (min (t * 2 ^ 52 + m) infiniteBits : Nat) :=
  place_eq (toNat_pack_finite hm hlt hor) (Nat.min_le_right _ _)

theorem place_round (sign : Sign) {m j : Nat} (hm : 0 < m) :
    place (UnpackedFloat.round Format.binary64 sign m ((j : Int) - 1074)) =
      sign.apply (roundUnits (m * 2 ^ j)) :=
  place_eq (toNat_pack_round sign hm rfl) (Nat.min_le_right _ _)

theorem normalize_apply (sign : Sign) {m : Nat} (hm : 0 < m) (e : Int) :
    UnpackedFloat.normalize Format.binary64 (sign.apply m) e .positive =
      UnpackedFloat.round Format.binary64 sign m e := by
  unfold UnpackedFloat.normalize
  cases sign with
  | positive =>
    rw [Sign.apply, Int.compare_eq_gt.mpr (by omega)]
    rfl
  | negative =>
    rw [Sign.apply, Int.compare_eq_lt.mpr (by omega), Int.neg_neg]
    rfl

theorem place_normalize (n : Int) (j : Nat) :
    place (UnpackedFloat.normalize Format.binary64 n ((j : Int) - 1074) .positive) =
      roundSigned 0 (n * 2 ^ j) := by
  obtain ⟨sign, hsign⟩ := exists_apply n
  generalize n.natAbs = m at hsign
  subst hsign
  rcases Nat.eq_zero_or_pos m with rfl | hm
  · have hzero : sign.apply (0 : Nat) = 0 := by cases sign <;> rfl
    rw [hzero, Int.zero_mul]
    exact place_zero .positive
  · have happly := apply_natCast_mul sign m (2 ^ j)
    push_cast at happly
    rw [normalize_apply sign hm, place_round sign hm, ← happly]
    exact_mod_cast (roundSigned_apply 0 sign (m * 2 ^ j)).symm

theorem mul_two_pow_sub_mul {k t : Nat} (h : k ≤ t) (m : Nat) :
    m * 2 ^ (t - k) * 2 ^ k = m * 2 ^ t := by
  rw [Nat.mul_assoc, ← Nat.pow_add, Nat.sub_add_cancel h]

theorem add_finite {s s' : Sign} {m n t r : Nat} (hm : 0 < m) (hn : 0 < n) :
    UnpackedFloat.add Format.binary64 (.finite s m ((t : Int) - 1074) hm)
      (.finite s' n ((r : Int) - 1074) hn) =
      UnpackedFloat.normalize Format.binary64
        (s.apply (m * 2 ^ (t - min t r) : Nat) + s'.apply (n * 2 ^ (r - min t r) : Nat))
        ((min t r : Nat) - 1074) .positive := by
  have hexponent : min ((t : Int) - 1074) ((r : Int) - 1074) = (min t r : Nat) - 1074 := by omega
  have ht : ((t : Int) - 1074 - ((min t r : Nat) - 1074)).toNat = t - min t r := by omega
  have hr : ((r : Int) - 1074 - ((min t r : Nat) - 1074)).toNat = r - min t r := by omega
  simp only [UnpackedFloat.add, decreaseExponent, hexponent, ht, hr, Nat.shiftLeft_eq]

theorem toNat_pack_mul_finite {s s' : Sign} {m n t r : Nat} (hm : 0 < m) (hn : 0 < n)
    (hmt : 2 ^ 52 ≤ m ∨ t = 0) (hnr : 2 ^ 52 ≤ n ∨ r = 0) :
    (UnpackedFloat.pack Format.binary64 (UnpackedFloat.mul Format.binary64
      (.finite s m ((t : Int) - 1074) hm) (.finite s' n ((r : Int) - 1074) hn))).toNat =
      (s * s').toBitVec.toNat * 2 ^ 63 + roundScaled 1074 (m * 2 ^ t * (n * 2 ^ r)) := by
  have hscale : m * 2 ^ t * (n * 2 ^ r) = m * n * 2 ^ (t + r) := by
    rw [Nat.mul_mul_mul_comm, ← Nat.pow_add]
  have hpos : 0 < m * n := Nat.mul_pos hm hn
  have hfits : t + r ≤ excessAt 1074 (m * n * 2 ^ (t + r)) + 1074 := by
    have hlength : 52 < bitLength (m * n) ∨ t + r = 0 := by
      rw [← Nat.not_le, bitLength_le_iff, Nat.not_lt]
      rcases hmt with hm' | rfl
      · exact Or.inl (Nat.le_trans hm' (Nat.le_mul_of_pos_right m hn))
      · rcases hnr with hn' | rfl
        · exact Or.inl (Nat.le_trans hn' (Nat.le_mul_of_pos_left n hm))
        · exact Or.inr rfl
    unfold excessAt
    rw [bitLength_mul_two_pow hpos]
    omega
  rw [hscale]
  exact toNat_pack_roundWithAccuracy (s * s') hpos (by omega) hfits

/-! ## Finite operands -/

/-- An unpacked double that is finite, as a number of units with its sign. -/
inductive Amounts : Int → UnpackedFloat → Prop where
  | zero {sign : Sign} : Amounts 0 (.zero sign)
  | finite {sign : Sign} {m t : Nat} (hm : 0 < m) : m < 2 ^ 53 → (2 ^ 52 ≤ m ∨ t = 0) →
      Amounts (sign.apply (m * 2 ^ t : Nat)) (.finite sign m ((t : Int) - 1074) hm)

section
variable {a b : Int} {u v : UnpackedFloat}

theorem place_of_amounts (h : Amounts a u) : place u = roundSigned 0 a := by
  cases h with
  | zero => exact place_zero _
  | finite hm hlt hor =>
    rw [place_finite hm hlt hor, roundSigned_apply]
    exact congrArg (fun k : Nat => Sign.apply _ k) (roundUnits_exact hlt hor).symm

theorem Amounts.neg (h : Amounts a u) : Amounts (-a) u.neg := by
  cases h with
  | zero => exact .zero
  | finite hm hlt hor =>
    rw [← apply_neg]
    exact .finite hm hlt hor

theorem place_add (hu : Amounts a u) (hv : Amounts b v) :
    place (UnpackedFloat.add Format.binary64 u v) = roundSigned 0 (a + b) := by
  cases hu with
  | @zero s =>
    rw [Int.zero_add, ← place_of_amounts hv]
    cases hv with
    | @zero s' => cases s <;> cases s' <;> decide +kernel
    | finite => rfl
  | @finite s m t hm =>
    cases hv with
    | zero =>
      rw [Int.add_zero, ← place_of_amounts (.finite hm ‹_› ‹_›)]
      rfl
    | @finite s' n r hn =>
      have hscale : s.apply (m * 2 ^ t : Nat) + s'.apply (n * 2 ^ r : Nat) =
          (s.apply (m * 2 ^ (t - min t r) : Nat) + s'.apply (n * 2 ^ (r - min t r) : Nat)) *
            2 ^ min t r := by
        rw [← mul_two_pow_sub_mul (Nat.min_le_left t r) m,
          ← mul_two_pow_sub_mul (Nat.min_le_right t r) n,
          apply_natCast_mul s (m * 2 ^ (t - min t r)), apply_natCast_mul s' (n * 2 ^ (r - min t r)),
          ← Int.add_mul]
        push_cast
        rfl
      rw [add_finite, place_normalize, hscale]

theorem sub_eq_add_neg (u v : UnpackedFloat) :
    UnpackedFloat.sub Format.binary64 u v = UnpackedFloat.add Format.binary64 u v.neg := by
  cases u with
  | finite s m e hm =>
    cases v with
    | finite s' n f hn =>
      simp only [UnpackedFloat.sub, UnpackedFloat.neg, UnpackedFloat.add, apply_neg]
      rw [Int.sub_eq_add_neg]
    | _ => rfl
  | _ => cases v <;> rfl

theorem place_sub (hu : Amounts a u) (hv : Amounts b v) :
    place (UnpackedFloat.sub Format.binary64 u v) = roundSigned 0 (a - b) := by
  rw [sub_eq_add_neg, place_add hu hv.neg, Int.sub_eq_add_neg]

theorem place_mul (hu : Amounts a u) (hv : Amounts b v) :
    place (UnpackedFloat.mul Format.binary64 u v) = roundSigned 1074 (a * b) := by
  have hzero : roundSigned 1074 0 = 0 := by decide +kernel
  cases hu with
  | zero =>
    rw [Int.zero_mul, hzero]
    cases hv with
    | zero | finite => exact place_zero _
  | @finite s m t hm _ hmt =>
    cases hv with
    | zero =>
      rw [Int.mul_zero, hzero]
      exact place_zero _
    | @finite s' n r hn _ hnr =>
      rw [← apply_mul, ← Nat.cast_mul, roundSigned_apply]
      exact place_eq (toNat_pack_mul_finite hm hn hmt hnr) (Nat.min_le_right _ _)

end

end TransitShapes.Binary64
