import TransitShapes.Network.Beam
import TransitShapes.Network.Waypoints
import TransitShapes.Settings

/-! # Matching stop patterns to shapes

The shape of a pattern is a stored polyline that joins its first and its last stop. Only where there
is none is a route through the network looked for.
-/

namespace TransitShapes

open Scalar

inductive MatchSource where
  | endpoints
  | networkPath
deriving Repr, DecidableEq, Inhabited

/-- A shape in the direction of travel, and how far the pattern strays from it in meters. -/
structure ShapeMatch (R : Type) where
  line : Polyline R
  score : R
  source : MatchSource
deriving Inhabited

variable {R : Type} [Scalar R]

/-! ## The best of several candidates -/

/-- A candidate with its score and its place in the list. -/
structure Scored (R : Type) where
  score : R
  index : Nat
  line : Polyline R
deriving Inhabited

def scoreAll (pattern : Polyline R) (candidates : List (Polyline R)) : List (Scored R) :=
  candidates.zipIdx.filterMap fun (line, index) =>
    (pattern.followDistance line).toOption.map fun score => ⟨score, index, line⟩

/-- The better of a kept candidate and the next one. The kept one wins a tie, and a score that is
not a number loses to any other. -/
def Scored.better (kept next : Scored R) : Scored R :=
  if nanLast kept.score next.score = .gt then next else kept

/-- The candidate with the lowest score, and the first of those. -/
def lowest? : List (Scored R) → Option (Scored R)
  | [] => none
  | first :: rest => some (rest.foldl Scored.better first)

/-- The candidate that a pattern follows most closely, unless even that one is farther off than a
distance in meters. -/
def bestMatch (pattern : Polyline R) (candidates : List (Polyline R)) (maxDistance : R) :
    Logged (Event R) (Option (Scored R)) :=
  match lowest? (scoreAll pattern candidates) with
  | none => ⟨none, []⟩
  | some best =>
    if maxDistance < best.score then
      ⟨none, [.matchTooFar (best.line.name.getD "") best.score maxDistance]⟩
    else ⟨some best, []⟩

/-- The polyline in the direction that puts its ends nearer to the first and the last stop. -/
def Polyline.oriented (line : Polyline R) (first last : Vec3 R) : Polyline R :=
  match line.ends? with
  | none => line
  | some (start, finish) =>
    let forward := first.distance start + last.distance finish
    let backward := first.distance finish + last.distance start
    if backward < forward then line.reversed else line

/-! ## Patterns -/

structure Matcher (R : Type) [Scalar R] where
  network : Network R
  settings : Settings R

namespace Matcher

def findPath (m : Matcher R) (pattern : List (Vec3 R)) :
    Logged (Event R) (Except ShapeError (Option (Polyline R))) :=
  match m.settings.search with
  | .nearest =>
    m.network.routeThroughLogged pattern m.settings.maxDistance m.settings.verbosity
  | .beam keep => m.network.beamRoute pattern m.settings.maxDistance keep.toNat

/-- The best of the polylines that join the first and the last stop. -/
def matchEndpoints (m : Matcher R) (pattern : List (Vec3 R)) (first last : Vec3 R)
    (found : List (Polyline R)) : Logged (Event R) (Option (ShapeMatch R)) := do
  Logged.report (.scoringCandidates found.length)
  let best ← bestMatch { points := pattern } (found.map (·.oriented first last))
    m.settings.maxDistance
  return best.map fun best => ⟨best.line, best.score, .endpoints⟩

/-- A route through the network, if the pattern follows it closely enough. -/
def matchPath (m : Matcher R) (pattern : List (Vec3 R)) :
    Option (Polyline R) → Logged (Event R) (Option (ShapeMatch R))
  | none => do
    Logged.report (.noPathFound pattern.length m.settings.maxDistance)
    return none
  | some path => do
    let best ← bestMatch { points := pattern } [path] m.settings.maxDistance
    return best.map fun best => ⟨path, best.score, .networkPath⟩

/-- The shape of a pattern of at least two stops. Polylines that join the first and the last stop
shut out any route through the network, even if none of them is close enough. -/
def matchPattern (m : Matcher R) (pattern : List (Vec3 R)) :
    Logged (Event R) (Except ShapeError (Option (ShapeMatch R))) :=
  match pattern with
  | first :: second :: rest => do
    let last := (second :: rest).getLast (by simp)
    let found ← m.network.collection.linesBetween first last m.settings.maxDistance
    if found.isEmpty then
      match ← m.findPath pattern with
      | .error e => return .error e
      | .ok path => return .ok (← m.matchPath pattern path)
    else return .ok (← m.matchEndpoints pattern first last found)
  | short => return .error (.tooFewPoints 2 short.length)

def matchPlaces (m : Matcher R) (stops : List (LatLng R)) :
    Logged (Event R) (Except ShapeError (Option (ShapeMatch R))) :=
  m.matchPattern (stops.map Vec3.ofLatLng)

/-! ## Batches -/

/-- The shapes of several patterns, each for itself. A single pattern is matched as it would be
alone, with its reports. More than one are matched side by side, where reports have no order, so
none is kept. -/
def matchAll (m : Matcher R) :
    List (List (Vec3 R)) → Logged (Event R) (List (Except ShapeError (Option (ShapeMatch R))))
  | [pattern] => do return [← m.matchPattern pattern]
  | patterns => return patterns.map fun pattern => (m.matchPattern pattern).value

end Matcher

end TransitShapes
