import TransitShapes.Geometry.Sphere

/-! # Cells of the globe

A cell is a hundredth of a degree in each direction. Latitudes are numbered from the equator, and
longitudes once round from the antimeridian.
-/

namespace TransitShapes

open Scalar

@[ext]
structure Cell where
  lat : Int
  lng : Int
deriving Repr, DecidableEq, Inhabited

namespace Cell

variable {R : Type} [Scalar R]

def perDegree : R := 100.0

/-- The number of cells in one turn. -/
def turn : Int := 36000

/-- Windows reach this many degrees farther than they need to, so that no rounding is felt. -/
def padding : R := 1e-9

/-- From this latitude on there are no windows. -/
def polarLatitude : R := 89.0

/-- The largest number of cells in a window. -/
def windowLimit : Nat := 64

def latIndex (lat : R) : Int := cellFloor (lat * perDegree)

/-- The number of a longitude before it is brought into one turn. -/
def lngPosition (lng : R) : Int := cellFloor ((lng + 180.0) * perDegree)

def ofPlace (place : LatLng R) : Cell := ⟨latIndex place.lat, lngPosition place.lng % turn⟩

def ofPoint (p : Vec3 R) : Cell := ofPlace p.toLatLng

/-- The whole numbers from `low` up to `high`. -/
def span (low high : Int) : List Int :=
  (List.range (high - low + 1).toNat).map fun (i : Nat) => low + i

/-- A patch that holds all places within a distance: its middle, and how far it reaches in degrees
to each side. -/
structure Window (R : Type) where
  middle : LatLng R
  latReach : R
  lngReach : R

/-- The window around a point for a distance in meters. There is none near the poles, nor where it
would go all the way round. -/
def Window.around? (p : Vec3 R) (maxDistance : R) : Option (Window R) :=
  let middle := p.toLatLng
  let angular := maxDistance / globeRadius
  let latReach := toDegrees angular + padding
  let spread := sin angular / cos (toRadians middle.lat)
  let lngReach := toDegrees (asin spread) + padding
  if polarLatitude ≤ Scalar.abs middle.lat + latReach then none
  else if ¬ spread < 1.0 ∨ pi / 2.0 ≤ angular then none
  else if 180.0 ≤ lngReach then none
  else some ⟨middle, latReach, lngReach⟩

/-- The cells of a window row by row, unless they are too many. -/
def Window.cells? (w : Window R) : Option (List Cell) :=
  let lats := span (latIndex (w.middle.lat - w.latReach)) (latIndex (w.middle.lat + w.latReach))
  let low := lngPosition (w.middle.lng - w.lngReach)
  let high := lngPosition (w.middle.lng + w.lngReach)
  let lngCount := (high - low + 1).toNat
  if windowLimit < lats.length * lngCount then none
  else some (lats.flatMap fun lat => (span low high).map fun lng => ⟨lat, lng % turn⟩)

/-- Every cell with a point within a distance of `p`, if that is few enough to go through. -/
def window? (p : Vec3 R) (maxDistance : R) : Option (List Cell) :=
  (Window.around? p maxDistance).bind Window.cells?

end Cell

end TransitShapes
