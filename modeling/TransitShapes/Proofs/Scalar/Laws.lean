import TransitShapes.Geometry.Sphere

/-! # What the proofs need of the arithmetic

Doubles keep these rules although they round. Each class holds what one kind of proof rests on, so a
theorem shows in its statement what it assumes.
-/

namespace TransitShapes.Scalar

variable {R : Type} [Scalar R]

/-! ## Order -/

/-- The order of values. What is not a number compares with nothing, and `total` has all others in
their order. Where it has the former is left open, since machines differ in the sign bit that they
give it. -/
class LawfulOrder (R : Type) [Scalar R] : Prop where
  isNumber_of_le {a b : R} : a ≤ b → ¬ IsNaN a ∧ ¬ IsNaN b
  le_trans {a b c : R} : a ≤ b → b ≤ c → a ≤ c
  le_total {a b : R} : ¬ IsNaN a → ¬ IsNaN b → a ≤ b ∨ b ≤ a
  lt_iff {a b : R} : a < b ↔ a ≤ b ∧ ¬ b ≤ a
  le_of_total {a b : R} : ¬ IsNaN a → ¬ IsNaN b → (total a b).isLE → a ≤ b

theorem total_refl (a : R) : (total a a).isLE := by
  have hself : total a a = .eq := Std.ReflCmp.compare_self
  rw [hself]
  rfl

section
variable [LawfulOrder R] {a b c : R}

theorem le_of_not_lt (ha : ¬ IsNaN a) (hb : ¬ IsNaN b) (h : ¬ a < b) : b ≤ a := by
  rw [LawfulOrder.lt_iff] at h
  rcases LawfulOrder.le_total ha hb with hle | hle
  · by_cases hba : b ≤ a
    · exact hba
    · exact absurd ⟨hle, hba⟩ h
  · exact hle

theorem le_of_not_le (ha : ¬ IsNaN a) (hb : ¬ IsNaN b) (h : ¬ a ≤ b) : b ≤ a :=
  (LawfulOrder.le_total ha hb).resolve_left h

theorem le_of_lt (h : a < b) : a ≤ b := (LawfulOrder.lt_iff.mp h).1

theorem lt_irrefl (a : R) : ¬ a < a := fun h => (LawfulOrder.lt_iff.mp h).2 (le_of_lt h)

theorem lt_of_lt_of_le (hab : a < b) (hbc : b ≤ c) : a < c := by
  rw [LawfulOrder.lt_iff] at hab ⊢
  exact ⟨LawfulOrder.le_trans hab.1 hbc, fun hca => hab.2 (LawfulOrder.le_trans hbc hca)⟩

theorem lt_of_le_of_lt (hab : a ≤ b) (hbc : b < c) : a < c := by
  rw [LawfulOrder.lt_iff] at hbc ⊢
  exact ⟨LawfulOrder.le_trans hab hbc.1, fun hca => hbc.2 (LawfulOrder.le_trans hca hab)⟩

theorem lt_trans (hab : a < b) (hbc : b < c) : a < c := lt_of_lt_of_le hab (le_of_lt hbc)

theorem not_total_of_lt (h : a < b) : ¬ (total b a).isLE := by
  have ⟨hle, hnot⟩ := LawfulOrder.lt_iff.mp h
  have ⟨ha, hb⟩ := LawfulOrder.isNumber_of_le hle
  exact fun htotal => hnot (LawfulOrder.le_of_total hb ha htotal)

theorem total_of_lt (h : a < b) : (total a b).isLE := by
  have hnot := not_total_of_lt h
  have hswap : total a b = (total b a).swap := Std.OrientedCmp.eq_swap
  cases hba : total b a with
  | gt =>
    rw [hswap, hba]
    rfl
  | lt | eq =>
    rw [hba] at hnot
    exact absurd rfl hnot

end

/-! ## Signs -/

/-- Zero without a minus sign, or above it, or not a number. -/
def Unsigned (x : R) : Prop := IsNaN x ∨ (total 0.0 x).isLE

/-- The signs of results. -/
class LawfulSign (R : Type) [Scalar R] : Prop extends LawfulOrder R where
  zero_le_zero : (0.0 : R) ≤ 0.0
  total_of_le {a b : R} : Unsigned a → Unsigned b → a ≤ b → (total a b).isLE
  unsigned_mul_self (a : R) : Unsigned (a * a)
  unsigned_mul {a b : R} : Unsigned a → Unsigned b → Unsigned (a * b)
  unsigned_add {a b : R} : Unsigned a → Unsigned b → Unsigned (a + b)
  unsigned_sqrt {a : R} : Unsigned a → Unsigned (sqrt a)
  unsigned_atan2 {y : R} (x : R) : Unsigned y → Unsigned (atan2 y x)
  unsigned_globeRadius : Unsigned (globeRadius : R)

theorem unsigned_zero : Unsigned (0.0 : R) := Or.inr (total_refl _)

theorem Unsigned.of_lt [LawfulOrder R] {a b : R} (ha : Unsigned a) (h : a < b) : Unsigned b := by
  have hna : ¬ IsNaN a := (LawfulOrder.isNumber_of_le (le_of_lt h)).1
  exact Or.inr (Std.TransCmp.isLE_trans (ha.resolve_left hna) (total_of_lt h))

section
variable [LawfulSign R]

theorem not_isNaN_zero : ¬ IsNaN (0.0 : R) := fun h => h LawfulSign.zero_le_zero

theorem Unsigned.nonneg {a : R} (h : Unsigned a) (ha : ¬ IsNaN a) : 0.0 ≤ a :=
  LawfulOrder.le_of_total not_isNaN_zero ha (h.resolve_left ha)

theorem unsigned_norm (v : Vec3 R) : Unsigned v.norm :=
  LawfulSign.unsigned_sqrt <| LawfulSign.unsigned_add
    (LawfulSign.unsigned_add (LawfulSign.unsigned_mul_self _) (LawfulSign.unsigned_mul_self _))
    (LawfulSign.unsigned_mul_self _)

theorem unsigned_angle (a b : Vec3 R) : Unsigned (a.angle b) :=
  LawfulSign.unsigned_atan2 _ (unsigned_norm _)

theorem unsigned_distance (a b : Vec3 R) : Unsigned (a.distance b) :=
  LawfulSign.unsigned_mul (unsigned_angle a b) LawfulSign.unsigned_globeRadius

theorem nonneg_of_distance_le {a b : Vec3 R} {bound : R} (h : a.distance b ≤ bound) :
    0.0 ≤ bound :=
  LawfulOrder.le_trans ((unsigned_distance a b).nonneg (LawfulOrder.isNumber_of_le h).1) h

end

/-! ## Sums -/

/-- Sums of values without a minus sign. Numbers add up to numbers that are not below them, and a
larger number gives no smaller sum. -/
class LawfulSum (R : Type) [Scalar R] : Prop extends LawfulSign R where
  isNaN_add {a b : R} : Unsigned a → Unsigned b → (IsNaN (a + b) ↔ IsNaN a ∨ IsNaN b)
  le_sum {a b : R} : Unsigned a → Unsigned b → ¬ IsNaN a → ¬ IsNaN b → a ≤ a + b
  sum_le_sum {a b c : R} : Unsigned a → Unsigned b → Unsigned c → ¬ IsNaN c → a ≤ b →
    a + c ≤ b + c

/-- Two values above a bound add up to more than twice the bound, as long as that is finite. -/
class LawfulDoubling (R : Type) [Scalar R] : Prop extends LawfulSum R where
  add_comm {a b : R} : Unsigned a → Unsigned b → ¬ IsNaN a → ¬ IsNaN b → a + b = b + a
  double_lt_add {a b d : R} : Unsigned d → isFinite (d + d) → d < a → d < b → d + d < a + b

theorem add_le_double [LawfulDoubling R] {a b d : R} (ha : Unsigned a) (hb : Unsigned b)
    (hd : Unsigned d) (had : a ≤ d) (hbd : b ≤ d) : a + b ≤ d + d := by
  have ⟨hna, hnd⟩ := LawfulOrder.isNumber_of_le had
  have ⟨hnb, _⟩ := LawfulOrder.isNumber_of_le hbd
  have hleft : a + b ≤ d + b := LawfulSum.sum_le_sum ha hd hb hnb had
  have hright : b + d ≤ d + d := LawfulSum.sum_le_sum hb hd hd hnd hbd
  rw [LawfulDoubling.add_comm hb hd hnb hnd] at hright
  exact LawfulOrder.le_trans hleft hright

theorem total_eq_of_le [LawfulSign R] {a b : R} (ha : Unsigned a) (hb : Unsigned b) (hab : a ≤ b)
    (hba : b ≤ a) : total a b = .eq := by
  have hswap : total b a = (total a b).swap := Std.OrientedCmp.eq_swap
  have hfirst := LawfulSign.total_of_le ha hb hab
  have hlast := LawfulSign.total_of_le hb ha hba
  rw [hswap] at hlast
  cases h : total a b with
  | eq => rfl
  | lt => rw [h] at hlast; cases hlast
  | gt => rw [h] at hfirst; cases hfirst

/-! ## Products -/

/-- Products of values without a minus sign. A larger value gives no smaller product. -/
class LawfulProduct (R : Type) [Scalar R] : Prop extends LawfulSign R where
  isNaN_mul {a : R} (b : R) : IsNaN a → IsNaN (a * b)
  mul_le_mul_right {a b c : R} : Unsigned a → Unsigned b → Unsigned c → a ≤ b →
    ¬ IsNaN (a * c) → ¬ IsNaN (b * c) → a * c ≤ b * c

/-- Distances on the globe. Only an angle of zero makes a distance of zero. -/
class LawfulDistance (R : Type) [Scalar R] : Prop extends LawfulProduct R where
  zero_lt_ten : (0.0 : R) < 10.0
  le_zero_of_mul_globeRadius {a : R} : Unsigned a → a * globeRadius ≤ 0.0 → a ≤ 0.0

/-- Distances that are numbers wherever angles are. -/
class LawfulMeasure (R : Type) [Scalar R] : Prop extends LawfulDistance R where
  isNaN_of_mul_globeRadius {a : R} : Unsigned a → IsNaN (a * globeRadius) → IsNaN a

/-! ## Zeros of two signs -/

/-- Two values are one, but for the sign of a zero. -/
def Alike (a b : R) : Prop := total (unsignedZero a) (unsignedZero b) = .eq

theorem Alike.refl (a : R) : Alike a a := Std.ReflCmp.compare_self

theorem Alike.symm {a b : R} (h : Alike a b) : Alike b a := Std.OrientedCmp.eq_symm h

theorem Alike.trans {a b c : R} (hab : Alike a b) (hbc : Alike b c) : Alike a c :=
  Std.TransCmp.eq_trans hab hbc

/-- The sign of a zero shows in a result as the sign of a zero at most, and a zero with another sign
can make up for it. -/
class LawfulZeros (R : Type) [Scalar R] : Prop where
  alike_mul {a b c d : R} : Alike a b → Alike c d → Alike (a * c) (b * d)
  alike_sub {a b c d : R} : Alike a b → Alike c d → Alike (a - c) (b - d)
  mul_self_eq {a b : R} : Alike a b → a * a = b * b
  exists_mul_eq {a b c : R} : Alike a b → Alike a c → ∃ d, Alike a d ∧ a * d = b * c

/-! ## What is not a number -/

/-- No operation makes a number of what is none. -/
class LawfulNaN (R : Type) [Scalar R] : Prop extends LawfulSign R where
  isNaN_mul {a : R} (b : R) : IsNaN a → IsNaN (a * b)
  isNaN_add {a b : R} : IsNaN a ∨ IsNaN b → IsNaN (a + b)
  isNaN_atan2 (y : R) {x : R} : IsNaN x → IsNaN (atan2 y x)

/-! ## Values of either sign -/

/-- Sums, differences and products of values of either sign. They keep the order, as long as the
value added or multiplied by is finite. -/
class LawfulMonotone (R : Type) [Scalar R] : Prop extends LawfulNaN R where
  not_isNaN_of_isFinite {a : R} : isFinite a → ¬ IsNaN a
  isFinite_of_le {a b : R} : 0.0 ≤ a → a ≤ b → isFinite b → isFinite a
  neg_le {a b : R} : -a ≤ b → -b ≤ a
  neg_nonneg {a : R} : a ≤ 0.0 → 0.0 ≤ -a
  neg_nonpos {a : R} : 0.0 ≤ a → -a ≤ 0.0
  add_le_add_right {a b c : R} : isFinite c → a ≤ b → a + c ≤ b + c
  le_add {a b : R} : ¬ IsNaN a → isFinite b → 0.0 ≤ b → a ≤ a + b
  sub_le {a b : R} : ¬ IsNaN a → isFinite b → 0.0 ≤ b → a - b ≤ a
  isNaN_sub {a : R} (b : R) : IsNaN a → IsNaN (a - b)
  mul_le_mul_right {a b c : R} : isFinite c → 0.0 < c → a ≤ b → a * c ≤ b * c

/-- Quotients that are numbers have the sign of what is divided, as long as the divisor has none. -/
class LawfulQuotient (R : Type) [Scalar R] : Prop extends LawfulSign R where
  isNaN_div {a b : R} : IsNaN a ∨ IsNaN b → IsNaN (a / b)
  div_nonneg {a b : R} : 0.0 ≤ a → Unsigned b → ¬ IsNaN (a / b) → 0.0 ≤ a / b

/-- Whole numbers in the order of the values they are taken from. -/
class LawfulFloor (R : Type) [Scalar R] : Prop extends LawfulOrder R where
  cellFloor_le {a b : R} : a ≤ b → cellFloor a ≤ cellFloor b
  cellFloor_of_isNaN {a : R} : IsNaN a → cellFloor a = 0

/-- The signs of sine, cosine and arcsine within a quarter turn of zero. -/
class LawfulAngles (R : Type) [Scalar R] : Prop extends LawfulSign R where
  isNaN_sin {x : R} : IsNaN x → IsNaN (sin x)
  isNaN_cos {x : R} : IsNaN x → IsNaN (cos x)
  sin_nonneg {x : R} : 0.0 ≤ x → x ≤ pi / 2.0 → 0.0 ≤ sin x
  unsigned_cos {x : R} : -(pi / 2.0) ≤ x → x ≤ pi / 2.0 → Unsigned (cos x)
  asin_nonneg {x : R} : 0.0 ≤ x → x ≤ 1.0 → 0.0 ≤ asin x

section
variable [LawfulMonotone R] {a b : R}

theorem abs_le (h : Scalar.abs a ≤ b) : -b ≤ a ∧ a ≤ b := by
  unfold Scalar.abs at h
  split at h
  case isTrue hneg =>
    have hzero : 0.0 ≤ b :=
      LawfulOrder.le_trans (LawfulMonotone.neg_nonneg (le_of_lt hneg)) h
    exact ⟨LawfulMonotone.neg_le h, LawfulOrder.le_trans (le_of_lt hneg) hzero⟩
  case isFalse hnot =>
    have hzero : 0.0 ≤ a := le_of_not_lt (LawfulOrder.isNumber_of_le h).1 not_isNaN_zero hnot
    have hb : 0.0 ≤ b := LawfulOrder.le_trans hzero h
    exact ⟨LawfulOrder.le_trans (LawfulMonotone.neg_nonpos hb) hzero, h⟩

theorem not_isNaN_abs (h : ¬ IsNaN a) : ¬ IsNaN (Scalar.abs a) := by
  unfold Scalar.abs
  split
  case isTrue hneg =>
    exact (LawfulOrder.isNumber_of_le (LawfulMonotone.neg_nonneg (le_of_lt hneg))).2
  case isFalse => exact h

end

/-! ## Exact arithmetic -/

/-- Arithmetic that does not round, where every value is a number and there is one zero. Doubles do
not keep these rules. -/
class LawfulExact (R : Type) [Scalar R] : Prop extends LawfulSum R where
  not_isNaN (a : R) : ¬ IsNaN a
  unsignedZero_eq (a : R) : unsignedZero a = a
  eq_of_total {a b : R} : total a b = .eq → a = b
  add_comm (a b : R) : a + b = b + a
  add_assoc (a b c : R) : a + b + c = a + (b + c)
  zero_add (a : R) : 0.0 + a = a
  add_le_add_right {a b : R} (c : R) : a ≤ b → a + c ≤ b + c
  distance_self (p : Vec3 R) : p.distance p = 0.0
  distance_comm (p q : Vec3 R) : p.distance q = q.distance p

namespace LawfulExact

variable [LawfulExact R]

theorem eq_of_alike {a b : R} (h : Alike a b) : a = b := by
  have heq := eq_of_total h
  rwa [unsignedZero_eq, unsignedZero_eq] at heq

instance : LawfulZeros R where
  alike_mul hab hcd := by
    rw [eq_of_alike hab, eq_of_alike hcd]
    exact .refl _
  alike_sub hab hcd := by
    rw [eq_of_alike hab, eq_of_alike hcd]
    exact .refl _
  mul_self_eq hab := by rw [eq_of_alike hab]
  exists_mul_eq {a b c} hab hac := ⟨a, .refl a, by rw [← eq_of_alike hab, ← eq_of_alike hac]⟩

theorem add_zero (a : R) : a + 0.0 = a := by
  rw [add_comm, zero_add]

theorem add_le_add {a b c d : R} (hac : a ≤ c) (hbd : b ≤ d) : a + b ≤ c + d := by
  apply LawfulOrder.le_trans (add_le_add_right b hac)
  rw [add_comm c, add_comm c]
  exact add_le_add_right c hbd

theorem foldl_add {α : Type} (f : α → R) (a : R) (values : List α) :
    values.foldl (fun sum x => sum + f x) a = a + values.foldl (fun sum x => sum + f x) 0.0 := by
  induction values generalizing a with
  | nil => exact (add_zero a).symm
  | cons x rest ih =>
    rw [List.foldl_cons, List.foldl_cons, ih, ih (0.0 + f x), zero_add, add_assoc]

end LawfulExact

end TransitShapes.Scalar
