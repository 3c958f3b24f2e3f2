import TransitShapes.Collection.Basic
import TransitShapes.Decimal.Layout
import TransitShapes.Scalar.Double

/-! # Settings of a matcher -/

namespace TransitShapes

open Scalar

/-- How a route through the network is found where no single polyline fits. -/
inductive PathSearch where
  /-- Every stop at its nearest vertex. -/
  | nearest
  /-- All vertices in range, keeping so many partial routes. -/
  | beam (keep : UInt64)
deriving Repr, DecidableEq, Inhabited

namespace PathSearch

/-- How many partial routes a beam keeps if nobody says. -/
def defaultKeep : UInt64 := 10

end PathSearch

structure Settings (R : Type) [Scalar R] where
  /-- How far a stop may be from its shape, in meters. -/
  maxDistance : R := 150.0
  search : PathSearch := .nearest
  verbosity : UInt8 := 0
  policy : DuplicatePolicy := .smart

inductive SettingsError (R : Type) where
  | invalidMaxDistance (value : R)
  | emptyBeam
deriving Repr, DecidableEq

namespace Settings

variable {R : Type} [Scalar R]

instance : Inhabited (Settings R) := ⟨{}⟩

def validate (s : Settings R) : Except (SettingsError R) (Settings R) :=
  if ¬ isFinite s.maxDistance ∨ s.maxDistance < 0.0 then .error (.invalidMaxDistance s.maxDistance)
  else if s.search = .beam 0 then .error .emptyBeam
  else .ok s

end Settings

def SettingsError.message : SettingsError Float → String
  | invalidMaxDistance value =>
    "max_distance_meters must be a non-negative finite number, got " ++ Decimal.plain.write value
  | emptyBeam => "keep_best_n must be at least 1"

end TransitShapes
