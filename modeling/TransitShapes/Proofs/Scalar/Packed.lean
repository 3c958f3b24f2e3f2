import TransitShapes.Proofs.Scalar.Double

/-! # The bits that rounding gives

Rounding to a double takes two steps: the first drops the bits that do not fit, and the second one
bit more if the first carried. Packed, the result is what rounding makes of a whole number of the
smallest double, or of fractions of it.
-/

namespace TransitShapes.Binary64

open Float.Model Float.Model.UnpackedFloat

/-! ## Dropping bits -/

/-- A whole number without its last `k` bits, with what is known of them. -/
def dropBits (m k : Nat) : ExtendedMantissa := ExtendedMantissa.ofMantissaAndAccuracy m .exact >>> k

theorem dropBits_succ (m k : Nat) : dropBits m (k + 1) = (dropBits m k).shiftRightOne := rfl

theorem mantissa_dropBits (m k : Nat) : (dropBits m k).mantissa = m / 2 ^ k := by
  induction k with
  | zero => exact (Nat.div_one m).symm
  | succ k ih =>
    change (dropBits m k).mantissa / 2 = _
    rw [ih, Nat.div_div_eq_div_mul, Nat.pow_succ]

theorem residue_dropBits (m k : Nat) :
    ((dropBits m k).roundBit ↔ 2 ^ k ≤ 2 * (m % 2 ^ k)) ∧
      ((dropBits m k).stickyBit ↔ m % 2 ^ k ≠ 0 ∧ 2 * (m % 2 ^ k) ≠ 2 ^ k) := by
  induction k with
  | zero =>
    change (false = true ↔ _) ∧ (false = true ↔ _)
    simp [Nat.mod_one]
  | succ k ih =>
    obtain ⟨hround, hsticky⟩ := ih
    have hmod : m % 2 ^ (k + 1) = m % 2 ^ k + 2 ^ k * (m / 2 ^ k % 2) := by
      rw [Nat.pow_succ, Nat.mod_mul]
    have hlt := Nat.mod_lt m (Nat.two_pow_pos k)
    have hbit : m / 2 ^ k % 2 = 0 ∨ m / 2 ^ k % 2 = 1 := by omega
    have hr : (dropBits m (k + 1)).roundBit = (m / 2 ^ k % 2 != 0) := by
      rw [dropBits_succ, ← mantissa_dropBits]
      rfl
    have hs : (dropBits m (k + 1)).stickyBit =
        ((dropBits m k).roundBit || (dropBits m k).stickyBit) := rfl
    rw [hr, hs, Bool.or_eq_true, hround, hsticky, hmod, bne_iff_ne, Nat.pow_succ]
    rcases hbit with hbit | hbit <;> rw [hbit] <;> constructor <;> omega

theorem roundedMantissa_dropBits (m k : Nat) :
    (dropBits m k).roundedMantissa = shiftNearest m k := by
  obtain ⟨hround, hsticky⟩ := residue_dropBits m k
  have hmantissa := mantissa_dropBits m k
  rw [shiftNearest_eq, ← hmantissa]
  generalize dropBits m k = em at *
  obtain ⟨n, round, sticky⟩ := em
  have hpos := Nat.two_pow_pos k
  simp only at hround hsticky
  cases round with
  | false =>
    have hlow : 2 * (m % 2 ^ k) < 2 ^ k := by
      simpa using hround
    rw [if_pos hlow]
    cases sticky <;> rfl
  | true =>
    have hhigh : 2 ^ k ≤ 2 * (m % 2 ^ k) := hround.mp rfl
    rw [if_neg (by omega)]
    cases sticky with
    | false =>
      have htie : ¬ (m % 2 ^ k ≠ 0 ∧ 2 * (m % 2 ^ k) ≠ 2 ^ k) := by simpa using hsticky
      rw [if_neg (by omega)]
      rfl
    | true =>
      have hmore := hsticky.mp rfl
      rw [if_pos (by omega)]
      rfl

/-! ## The first step -/

section
variable {m j s : Nat} {e : Int}

theorem targetExponent_eq (hm : 0 < m) (he : e = (j : Int) - 1074 - s) :
    Format.binary64.targetExponent (totalExponent m e) = (excessAt s (m * 2 ^ j) : Int) - 1074 := by
  have hlength : bitLength (m * 2 ^ j) = m.log2 + 1 + j := by
    rw [bitLength_mul_two_pow hm]
    unfold bitLength
    rw [if_neg (by omega)]
  have hbits : Format.binary64.mantissaBits = 53 := rfl
  have hmin : Format.binary64.minExponent = -1074 := rfl
  unfold Format.targetExponent totalExponent excessAt
  rw [hlength, hbits, hmin]
  omega

theorem shiftToTargetExponent_eq (hm : 0 < m) (he : e = (j : Int) - 1074 - s) :
    shiftToTargetExponent Format.binary64 m e .exact =
      (dropBits m (excessAt s (m * 2 ^ j) + s - j),
        e + (excessAt s (m * 2 ^ j) + s - j : Nat)) := by
  have hshift : ((excessAt s (m * 2 ^ j) : Int) - 1074 - e).toNat =
      excessAt s (m * 2 ^ j) + s - j := by omega
  unfold shiftToTargetExponent
  rw [targetExponent_eq hm he, ← hshift]
  rfl

theorem shiftNearest_mul_two_pow (n k j : Nat) :
    shiftNearest (n * 2 ^ j) (k + j) = shiftNearest n k := by
  have hpos := Nat.two_pow_pos j
  rw [shiftNearest_eq, shiftNearest_eq, Nat.pow_add, Nat.mul_div_mul_right _ _ hpos,
    Nat.mul_mod_mul_right, ← Nat.mul_assoc]
  simp only [Nat.mul_lt_mul_right hpos]

end

/-! ## The second step -/

/-- What the second step makes of a rounded significand. -/
def settle (sign : Sign) (m : Nat) (e : Int) : UnpackedFloat :=
  let (final, f) := shiftToTargetExponent Format.binary64 m e .exact
  if h : final.mantissa = 0 then .zero sign
  else .finite sign final.mantissa f (Nat.pos_of_ne_zero h)

theorem settle_zero (sign : Sign) (e : Int) : settle sign 0 e = .zero sign := by
  have hnone : (shiftToTargetExponent Format.binary64 0 e .exact).1.mantissa = 0 := by
    change (dropBits 0 _).mantissa = 0
    rw [mantissa_dropBits, Nat.zero_div]
  unfold settle
  exact dif_pos hnone

theorem settle_of_pos (sign : Sign) {m n : Nat} {e f : Int} (hn : 0 < n)
    (hmantissa : (shiftToTargetExponent Format.binary64 m e .exact).1.mantissa = n)
    (hexponent : (shiftToTargetExponent Format.binary64 m e .exact).2 = f) :
    settle sign m e = .finite sign n f hn := by
  subst hmantissa hexponent
  unfold settle
  exact dif_neg (Nat.ne_of_gt hn)

theorem toNat_pack_zero (sign : Sign) :
    (UnpackedFloat.pack Format.binary64 (.zero sign)).toNat = sign.toBitVec.toNat * 2 ^ 63 := by
  cases sign <;> decide

theorem toNat_pack_settle (sign : Sign) {m t : Nat} {e : Int} (he : e = (t : Int) - 1074)
    (hle : m ≤ 2 ^ 53) (hnormal : 0 < t → 2 ^ 52 ≤ m) :
    (UnpackedFloat.pack Format.binary64 (settle sign m e)).toNat =
      sign.toBitVec.toNat * 2 ^ 63 + min (t * 2 ^ 52 + m) infiniteBits := by
  have he' : e = (t : Int) - 1074 - (0 : Nat) := by omega
  rcases Nat.eq_zero_or_pos m with rfl | hm
  · have ht : t = 0 := by omega
    subst ht
    rw [settle_zero, toNat_pack_zero]
    simp
  · have hstep := shiftToTargetExponent_eq hm he'
    have hlength := bitLength_mul_two_pow hm t
    rcases Nat.lt_or_eq_of_le hle with hlt | rfl
    · have hexcess : excessAt 0 (m * 2 ^ t) + 0 - t = 0 := by
        have := bitLength_le_iff.mpr hlt
        unfold excessAt
        omega
      rw [hexcess] at hstep
      rw [settle_of_pos sign (f := (t : Int) - 1074) hm, toNat_pack_finite hm hlt (by omega)]
      · rw [hstep]
        exact (mantissa_dropBits m 0).trans (Nat.div_one m)
      · rw [hstep]
        simp only
        omega
    · -- the first step carried
      have hexcess : excessAt 0 (2 ^ 53 * 2 ^ t) + 0 - t = 1 := by
        have : bitLength (2 ^ 53) = 54 := by decide
        unfold excessAt
        omega
      rw [hexcess] at hstep
      have hhalf : 2 ^ 53 / 2 ^ 1 = 2 ^ 52 := by decide
      rw [settle_of_pos sign (n := 2 ^ 52) (f := ((t + 1 : Nat) : Int) - 1074) (by decide),
        toNat_pack_finite _ (by decide) (Or.inl (Nat.le_refl _)),
        show (t + 1) * 2 ^ 52 + 2 ^ 52 = t * 2 ^ 52 + 2 ^ 53 by omega]
      · rw [hstep]
        exact (mantissa_dropBits _ 1).trans hhalf
      · rw [hstep]
        simp only
        omega

/-! ## Both steps -/

/-- Rounding `m` at an exponent `s` bits or less below the smallest double. -/
theorem toNat_pack_roundWithAccuracy (sign : Sign) {m j s : Nat} {e : Int} (hm : 0 < m)
    (he : e = (j : Int) - 1074 - s) (h : j ≤ excessAt s (m * 2 ^ j) + s) :
    (UnpackedFloat.pack Format.binary64 (roundWithAccuracy Format.binary64 sign m e .exact)).toNat =
      sign.toBitVec.toNat * 2 ^ 63 + roundScaled s (m * 2 ^ j) := by
  have hsettle : roundWithAccuracy Format.binary64 sign m e .exact =
      settle sign (shiftToTargetExponent Format.binary64 m e .exact).1.roundedMantissa
        (shiftToTargetExponent Format.binary64 m e .exact).2 := rfl
  have hrounded : shiftNearest m (excessAt s (m * 2 ^ j) + s - j) =
      shiftNearest (m * 2 ^ j) (excessAt s (m * 2 ^ j) + s) := by
    rw [← shiftNearest_mul_two_pow m _ j, Nat.sub_add_cancel h]
  rw [hsettle, shiftToTargetExponent_eq hm he, roundedMantissa_dropBits, hrounded]
  exact toNat_pack_settle sign (by simp only; omega) (shiftNearest_excessAt_le s _)
    le_shiftNearest_excessAt

theorem toNat_pack_round (sign : Sign) {m j : Nat} {e : Int} (hm : 0 < m)
    (he : e = (j : Int) - 1074) :
    (UnpackedFloat.pack Format.binary64 (UnpackedFloat.round Format.binary64 sign m e)).toNat =
      sign.toBitVec.toNat * 2 ^ 63 + roundUnits (m * 2 ^ j) := by
  have htarget := targetExponent_eq (s := 0) (j := j) hm (he.trans (by simp))
  obtain ⟨d, hd⟩ : ∃ d, d = j - excessAt 0 (m * 2 ^ j) := ⟨_, rfl⟩
  have hscale : m * 2 ^ d * 2 ^ (j - d) = m * 2 ^ j := by
    rw [Nat.mul_assoc, ← Nat.pow_add, Nat.add_sub_cancel' (by omega)]
  have hshift : (e - ((excessAt 0 (m * 2 ^ j) : Int) - 1074)).toNat = d := by omega
  unfold UnpackedFloat.round decreaseExponent
  simp only [htarget, hshift, Nat.shiftLeft_eq]
  rw [toNat_pack_roundWithAccuracy sign (s := 0) (j := j - d)
    (Nat.mul_pos hm (Nat.two_pow_pos d)) (by omega) (by rw [hscale]; omega), hscale]
  rfl

end TransitShapes.Binary64
