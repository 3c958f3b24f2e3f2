import TransitShapes.Geometry.Vec3

/-! # Points with numbers, found by where they are

Distances here are straight lines through space, squared.
-/

namespace TransitShapes

variable {R : Type} [Scalar R]

def Vec3.squaredDistance (a b : Vec3 R) : R := (a - b).dot (a - b)

structure PointIndex (R : Type) where
  entries : Array (Vec3 R × Nat) := #[]
deriving Inhabited

namespace PointIndex

def insert (index : PointIndex R) (place : Vec3 R) (id : Nat) : PointIndex R :=
  ⟨index.entries.push (place, id)⟩

def within (index : PointIndex R) (center : Vec3 R) (squaredRadius : R) : List (Vec3 R × Nat) :=
  index.entries.toList.filter fun entry => center.squaredDistance entry.1 ≤ squaredRadius

def nearest? (index : PointIndex R) (center : Vec3 R) : Option (Vec3 R × Nat) :=
  index.entries.toList.foldl nearer none
where
  nearer (best : Option (Vec3 R × Nat)) (entry : Vec3 R × Nat) : Option (Vec3 R × Nat) :=
    match best with
    | none => some entry
    | some kept =>
      if center.squaredDistance entry.1 < center.squaredDistance kept.1 then some entry
      else some kept

end PointIndex

end TransitShapes
