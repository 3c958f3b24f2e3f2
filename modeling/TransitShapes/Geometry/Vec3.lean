import TransitShapes.Error
import TransitShapes.Scalar.Basic

/-! # Vectors in space

A location on the globe is a vector of length 1. Sums and products of locations have any length,
and are locations again once they are `normalized`.

The order of the additions and products below is part of the meaning: at doubles another order
gives another last digit.
-/

namespace TransitShapes

@[ext]
structure Vec3 (R : Type) where
  x : R
  y : R
  z : R
deriving Repr, Inhabited

inductive Axis where
  | x
  | y
  | z
deriving Repr, DecidableEq

def Axis.previous : Axis → Axis
  | x => z
  | y => x
  | z => y

namespace Vec3

open Scalar

variable {R : Type} [Scalar R]

/-! ## Algebra -/

def coordinate (v : Vec3 R) : Axis → R
  | .x => v.x
  | .y => v.y
  | .z => v.z

def setCoordinate (v : Vec3 R) (axis : Axis) (value : R) : Vec3 R :=
  match axis with
  | .x => { v with x := value }
  | .y => { v with y := value }
  | .z => { v with z := value }

instance : Add (Vec3 R) := ⟨fun a b => ⟨a.x + b.x, a.y + b.y, a.z + b.z⟩⟩

instance : Sub (Vec3 R) := ⟨fun a b => ⟨a.x - b.x, a.y - b.y, a.z - b.z⟩⟩

def scale (v : Vec3 R) (factor : R) : Vec3 R := ⟨v.x * factor, v.y * factor, v.z * factor⟩

instance : Neg (Vec3 R) := ⟨fun v => v.scale (-1.0)⟩

def dot (a b : Vec3 R) : R := a.x * b.x + a.y * b.y + a.z * b.z

def cross (a b : Vec3 R) : Vec3 R :=
  ⟨a.y * b.z - a.z * b.y, a.z * b.x - a.x * b.z, a.x * b.y - a.y * b.x⟩

/-! ## Length -/

/-- The straight length of the vector, not a distance along the globe. -/
def norm (v : Vec3 R) : R := sqrt (v.dot v)

def isUnit (v : Vec3 R) : Bool := Scalar.abs (v.norm - 1.0) < 1e-14

def normalized (v : Vec3 R) : Except ShapeError (Vec3 R) :=
  let length := v.norm
  if ¬ isFinite length then .error .nonFiniteVector
  else if IsZero length then .error .zeroVector
  else .ok (v.scale (1.0 / length))

/-! ## Normals -/

/-- The axis along which the vector reaches farthest. Of equal reaches the later axis counts. -/
def dominantAxis (v : Vec3 R) : Axis :=
  if Scalar.abs v.y < Scalar.abs v.x then
    if Scalar.abs v.z < Scalar.abs v.x then .x else .z
  else if Scalar.abs v.z < Scalar.abs v.y then .y
  else .z

/-- A vector of length 1 at a right angle to this one. Which one it is depends on this vector
alone. -/
def perpendicular (v : Vec3 R) : Except ShapeError (Vec3 R) :=
  let slanted : Vec3 R := ⟨0.012, 0.053, 0.00457⟩
  (v.cross (slanted.setCoordinate v.dominantAxis.previous 1.0)).normalized

/-- A normal of the plane through the origin and two points.

It is their cross product, from a sum and a difference so that points close to each other keep
their digits. Where that is nearly nothing (the same direction, or opposite ones) every plane
through the first point would do, and `perpendicular` chooses one. -/
def arcNormal (a b : Vec3 R) : Except ShapeError (Vec3 R) :=
  let doubled := (a + b).cross (b - a)
  if 1e-15 < Scalar.abs doubled.x ∨ 1e-15 < Scalar.abs doubled.y ∨ 1e-15 < Scalar.abs doubled.z
  then .ok (doubled.scale 0.5)
  else a.perpendicular

/-! ## Order and identity -/

/-- Vectors in the order of one coordinate. -/
def compareAlong (coordinate : Vec3 R → R) (a b : Vec3 R) : Ordering :=
  total (unsignedZero (coordinate a)) (unsignedZero (coordinate b))

instance (f : Vec3 R → R) : Std.TransCmp (compareAlong f) where
  eq_swap {a b} :=
    show total (unsignedZero (f a)) (unsignedZero (f b)) = (total _ _).swap from
      Std.OrientedCmp.eq_swap
  isLE_trans {a b c} hab hbc :=
    show (total (unsignedZero (f a)) (unsignedZero (f c))).isLE from
      Std.TransCmp.isLE_trans (b := unsignedZero (f b)) hab hbc

/-- Vectors in one line, by their coordinates in turn. Zeros of both signs are the same. -/
def compareKeys : Vec3 R → Vec3 R → Ordering :=
  compareLex (compareAlong Vec3.x) (compareLex (compareAlong Vec3.y) (compareAlong Vec3.z))

instance : Std.TransCmp (compareKeys (R := R)) :=
  inferInstanceAs (Std.TransCmp (compareLex _ (compareLex _ _)))

end Vec3

end TransitShapes
