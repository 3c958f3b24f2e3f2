/-! # The numbers that geometry is written over

Every definition about points, polylines and routes is written once, over any `Scalar`. The
library runs at binary doubles and can be reasoned about at the reals. Nothing here assumes that
the arithmetic is exact or that every value equals itself: a double that is not a number is a
value like any other, and compares with nothing.
-/

namespace TransitShapes

/-- A number type with the operations of spherical geometry.

`total` puts all values in one line, those that compare with nothing included, and where those
stand is left open: it can be in front, at the end, or some at either end. `cellFloor` is the
largest whole number that is not above the value, cut to what 64 bits hold. -/
class Scalar (R : Type) extends Add R, Sub R, Mul R, Div R, Neg R, LT R, LE R, OfScientific R where
  decidableLT : DecidableLT R
  decidableLE : DecidableLE R
  isFinite : R → Bool
  sqrt : R → R
  sin : R → R
  cos : R → R
  asin : R → R
  atan2 : R → R → R
  pi : R
  cellFloor : R → Int
  total : R → R → Ordering
  total_trans : Std.TransCmp total

namespace Scalar

attribute [reducible] decidableLT decidableLE
attribute [instance] decidableLT decidableLE total_trans

variable {R : Type} [Scalar R]

instance : Inhabited R := ⟨0.0⟩

/-- A value that does not even compare with itself. -/
def IsNaN (x : R) : Prop := ¬ x ≤ x

instance (x : R) : Decidable (IsNaN x) := inferInstanceAs (Decidable (¬ _))

def IsZero (x : R) : Prop := x ≤ 0.0 ∧ 0.0 ≤ x

instance (x : R) : Decidable (IsZero x) := inferInstanceAs (Decidable (_ ∧ _))

def abs (x : R) : R := if x < 0.0 then -x else x

/-- The larger of two values. A value that is not a number counts as absent. -/
def max (a b : R) : R := if a < b then b else if IsNaN a then b else a

/-- The smaller of two values. A value that is not a number counts as absent. -/
def min (a b : R) : R := if b < a then b else if IsNaN a then b else a

def toRadians (degrees : R) : R := degrees * (pi / 180.0)

def toDegrees (radians : R) : R := radians * (180.0 / pi)

/-- One zero stands for both. -/
def unsignedZero (x : R) : R := if IsZero x then 0.0 else x

/-- Ascending order with values that are not numbers at the end, all equal. -/
def nanLast (a b : R) : Ordering :=
  if IsNaN a then (if IsNaN b then .eq else .gt)
  else if IsNaN b then .lt
  else if a < b then .lt
  else if b < a then .gt
  else .eq

end Scalar

end TransitShapes
