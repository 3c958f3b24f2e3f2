import TransitShapes.Proofs.Scalar.Monotone
import TransitShapes.Proofs.Scalar.Whole

/-! # The signs of sine, cosine and arcsine

The series of sine and cosine are whole numbers with the sign of the remainder, or with none. So the
quarter of a turn that an angle is in, and the side of it, tell the sign of the result.
-/

namespace TransitShapes.Elementary

open Binary64

/-! ## Turns -/

/-- A quarter turn in fractions of `2 ^ -1280`. -/
def quarterTurn : Int := piDigits / twoTo 5

theorem quarterTurn_pos : 0 < quarterTurn := by decide +kernel

/-- The quarter turns and the remainder of an angle in fractions of `2 ^ -1280`. -/
def Turn.ofAngle (angle : Int) : Turn :=
  let quarter := (2 * angle + quarterTurn) / (2 * quarterTurn)
  ⟨quarter, (angle - quarter * quarterTurn) / twoTo 1088⟩

theorem Turn.ofFinite_eq (negative : Bool) (m t : Nat) :
    Turn.ofFinite negative m ((t : Int) - 1074) =
      Turn.ofAngle ((if negative then -(m : Int) else m) * 2 ^ t * 2 ^ 206) := by
  have hexponent : ((t : Int) - 1074 + 1280).toNat = t + 206 := by omega
  have hpow : ((twoTo (t + 206) : Nat) : Int) = 2 ^ t * 2 ^ 206 := by
    rw [twoTo_eq, pow_add, Nat.cast_mul, Nat.cast_pow, Nat.cast_pow, Nat.cast_ofNat]
  have hangle : (if negative then -((m : Int) * twoTo (t + 206)) else (m : Int) * twoTo (t + 206)) =
      (if negative then -(m : Int) else m) * 2 ^ t * 2 ^ 206 := by
    rw [hpow, Int.mul_assoc]
    cases negative with
    | true => rw [if_pos rfl, if_pos rfl, Int.neg_mul]
    | false => rfl
  rw [← hangle, ← hexponent]
  rfl

theorem Turn.ofAngle_add_quarterTurn (angle : Int) : Turn.ofAngle (angle + quarterTurn) =
    ⟨(Turn.ofAngle angle).quarter + 1, (Turn.ofAngle angle).remainder⟩ := by
  have hpos := quarterTurn_pos
  unfold Turn.ofAngle
  generalize quarterTurn = q at *
  have hquarter : (2 * (angle + q) + q) / (2 * q) = (2 * angle + q) / (2 * q) + 1 := by
    have hshift : 2 * (angle + q) + q = 2 * angle + q + 2 * q * 1 := by ring
    rw [hshift, Int.add_mul_ediv_left _ _ (by omega)]
  have hrest : ∀ n, angle + q - (n + 1) * q = angle - n * q := fun n => by ring
  simp only [hquarter, hrest]

/-! ## Series -/

theorem sineSeries_nonneg {r : Int} (h : 0 ≤ r) : 0 ≤ sineSeries r :=
  Int.ediv_nonneg (Int.mul_nonneg h (Int.natCast_nonneg _)) (Int.natCast_nonneg _)

theorem sineSeries_nonpos {r : Int} (h : r ≤ 0) : sineSeries r ≤ 0 := by
  have hproduct : r * alternating 192 ((r * r).natAbs >>> 192)
      (fun k => 2 * k * (2 * k + 1)) 24 1 ≤ 0 :=
    Int.mul_nonpos_of_nonpos_of_nonneg h (Int.natCast_nonneg _)
  have hdiv := Int.ediv_le_ediv (Int.natCast_pos.mpr (twoTo_pos 192)) hproduct
  rwa [Int.zero_ediv] at hdiv

theorem cosineSeries_nonneg (r : Int) : 0 ≤ cosineSeries r := Int.natCast_nonneg _

theorem Turn.sine_ofAngle_nonneg {angle : Int} (hlow : 0 ≤ angle)
    (hhigh : angle ≤ 2 * quarterTurn) : 0 ≤ (Turn.ofAngle angle).sine := by
  have hpos := quarterTurn_pos
  unfold Turn.ofAngle
  generalize quarterTurn = q at *
  have hfirst : 0 ≤ (2 * angle + q) / (2 * q) := Int.ediv_nonneg (by omega) (by omega)
  have hlast : (2 * angle + q) / (2 * q) < 3 := Int.ediv_lt_of_lt_mul (by omega) (by omega)
  generalize (2 * angle + q) / (2 * q) = quarter at *
  have hcases : quarter = 0 ∨ quarter = 1 ∨ quarter = 2 := by omega
  rcases hcases with rfl | rfl | rfl
  · exact sineSeries_nonneg (Int.ediv_nonneg (by omega) (Int.natCast_nonneg _))
  · exact cosineSeries_nonneg _
  · have hremainder : (angle - 2 * q) / (twoTo 1088 : Int) ≤ 0 := by
      have hdiv := Int.ediv_le_ediv (Int.natCast_pos.mpr (twoTo_pos 1088))
        (by omega : angle - 2 * q ≤ 0)
      rwa [Int.zero_ediv] at hdiv
    exact Int.neg_nonneg_of_nonpos (sineSeries_nonpos hremainder)

/-! ## Sine and cosine -/

/-- The angle that a double is, in fractions of `2 ^ -1280`. -/
def angleOf (x : Float) : Int := amount (position x) * 2 ^ 206

theorem angleOf_mono {x y : Float} (h : x ≤ y) : angleOf x ≤ angleOf y := by
  rw [le_iff_position] at h
  unfold angleOf
  exact Int.mul_le_mul_of_nonneg_right (amount_mono h.1.1 h.1.2 h.2) (by positivity)

theorem angleOf_half_pi_le : angleOf (Scalar.pi / 2.0) ≤ quarterTurn := by decide +kernel

theorem neg_quarterTurn_le_angleOf : -quarterTurn ≤ angleOf (-(Scalar.pi / 2.0)) := by
  decide +kernel

theorem exists_finite {x : Float} (h : Scalar.isFinite x) :
    ∃ (negative : Bool) (m : Nat) (e : Int), ofFloat x = .finite negative m e ∧
      Turn.ofFinite negative m e = Turn.ofAngle (angleOf x) := by
  obtain ⟨negative, m, t, hx, hamount⟩ := ofFloat_of_isFinite h
  refine ⟨negative, m, _, hx, ?_⟩
  rw [Turn.ofFinite_eq, hamount, angleOf]

theorem ofFixed_of_nonneg {v : Int} (h : 0 ≤ v) (bits : Nat) :
    ofFixed v bits = nearest false v.natAbs (-(bits : Int)) := by
  unfold ofFixed
  rw [decide_eq_false (Int.not_lt.mpr h)]

theorem nonneg_nearest (significand : Nat) (exponent : Int) :
    0.0 ≤ nearest false significand exponent := by
  apply (unsigned_nearest significand exponent).nonneg
  rw [isNaN_iff]
  unfold magnitude
  rw [toBits_nearest]
  have := magnitudeBits_le significand exponent
  omega

theorem sin_nonneg {x : Float} (hlow : 0.0 ≤ x) (hhigh : x ≤ Scalar.pi / 2.0) :
    0.0 ≤ sin x := by
  have hfinite : Scalar.isFinite x :=
    isFinite_of_between (by decide +kernel) (by decide +kernel) hlow hhigh
  obtain ⟨negative, m, e, hx, hturn⟩ := exists_finite hfinite
  unfold sin
  simp only [hx]
  split
  case isTrue => exact hlow
  case isFalse =>
    have hangle : 0 ≤ angleOf x := angleOf_mono hlow
    have hle : angleOf x ≤ 2 * quarterTurn := by
      have hquarter := (angleOf_mono hhigh).trans angleOf_half_pi_le
      have hpos := quarterTurn_pos
      omega
    rw [hturn, ofFixed_of_nonneg (Turn.sine_ofAngle_nonneg hangle hle)]
    exact nonneg_nearest _ _

theorem unsigned_cos {x : Float} (hlow : -(Scalar.pi / 2.0) ≤ x) (hhigh : x ≤ Scalar.pi / 2.0) :
    Scalar.Unsigned (cos x) := by
  have hfinite : Scalar.isFinite x :=
    isFinite_of_between (by decide +kernel) (by decide +kernel) hlow hhigh
  obtain ⟨negative, m, e, hx, hturn⟩ := exists_finite hfinite
  unfold cos
  simp only [hx]
  split
  case isTrue => exact (unsigned_iff _).mpr (by decide +kernel)
  case isFalse =>
    have hge := neg_quarterTurn_le_angleOf.trans (angleOf_mono hlow)
    have hle := (angleOf_mono hhigh).trans angleOf_half_pi_le
    rw [hturn, ← Turn.ofAngle_add_quarterTurn,
      ofFixed_of_nonneg (Turn.sine_ofAngle_nonneg (by omega) (by omega))]
    exact unsigned_nearest _ _

/-! ## Arcsine -/

theorem asin_nonneg {x : Float} (hlow : 0.0 ≤ x) (hhigh : x ≤ 1.0) : 0.0 ≤ asin x := by
  have hfinite : Scalar.isFinite x :=
    isFinite_of_between (by decide +kernel) (by decide +kernel) hlow hhigh
  obtain ⟨negative, m, t, hx, hamount⟩ := ofFloat_of_isFinite hfinite
  unfold asin
  simp only [hx]
  split
  case isTrue => exact hlow
  case isFalse htiny =>
    have hbelow : ¬ (1.0 < x ∨ x < -1.0) := by
      rintro (h | h)
      · exact (Scalar.LawfulOrder.lt_iff.mp h).2 hhigh
      · exact absurd (Scalar.lt_of_le_of_lt hlow h) (by decide +kernel)
    have hplus : negative = false := by
      have hpos : 0 < m := Nat.pos_of_ne_zero fun h => htiny (by rw [h]; rfl)
      have hnonneg := amount_nonneg (position_nonneg_iff.mp hlow).2
      rw [← hamount] at hnonneg
      by_contra hminus
      rw [if_pos (eq_true_of_ne_false hminus)] at hnonneg
      have hneg : -(m : Int) * 2 ^ t < 0 := Int.mul_neg_of_neg_of_pos (by omega) (by positivity)
      exact absurd hneg (Int.not_lt.mpr hnonneg)
    rw [if_neg hbelow, hplus]
    exact nonneg_nearest _ _

end TransitShapes.Elementary

namespace TransitShapes

open Scalar Binary64

instance : LawfulAngles Float where
  isNaN_sin {x} hx := by
    change IsNaN (Elementary.sin x)
    unfold Elementary.sin
    rw [ofFloat_of_isNaN hx]
    exact isNaN_nan
  isNaN_cos {x} hx := by
    change IsNaN (Elementary.cos x)
    unfold Elementary.cos
    rw [ofFloat_of_isNaN hx]
    exact isNaN_nan
  sin_nonneg := Elementary.sin_nonneg
  unsigned_cos := Elementary.unsigned_cos
  asin_nonneg := Elementary.asin_nonneg

end TransitShapes
