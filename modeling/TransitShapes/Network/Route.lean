import TransitShapes.Network.Basic

/-! # The cheapest route between two vertices

The search takes vertices from a frontier, the cheapest first, and lists every neighbour that it
reaches at a lower cost than before. An entry of the frontier is left standing when its vertex is
reached at a lower cost, and passed over when its turn comes.
-/

namespace TransitShapes

open Scalar

/-- How a vertex was reached: along a polyline, from another vertex. -/
structure Hop where
  line : Nat
  origin : Nat
deriving Repr, DecidableEq

abbrev LastHops := Std.TreeMap Nat Hop

namespace Network

variable {R : Type} [Scalar R]

/-! ## Walking back -/

/-- The hops to a vertex from the first one on, with `hops` after them. There are none if more hops
lead back than `fuel`. -/
def hopsTo (last : LastHops) : Nat → Nat → List Hop → Option (List Hop)
  | fuel, vertex, hops =>
    match last[vertex]? with
    | none => some hops
    | some hop =>
      match fuel with
      | 0 => none
      | fuel + 1 => hopsTo last fuel hop.origin (hop :: hops)

/-- The polyline of a hop in the direction of travel. -/
def travelled? (net : Network R) (hop : Hop) : Option (Polyline R) := do
  let line ← net.collection.get? hop.line
  let edge ← net.edges[hop.line]?
  return if edge.start = hop.origin then line else line.reversed

/-- The polylines of a list of hops as one. A vertex between two of them stays once. -/
def joinHops (net : Network R) (hops : List Hop) : Polyline R :=
  Polyline.join (hops.filterMap net.travelled?) (some 0.0)

/-- The way to a vertex along its last hops, which must not go in a circle. -/
def reconstruct (net : Network R) (last : LastHops) (target : Nat) : Option (Polyline R) :=
  (hopsTo last last.size target []).map net.joinHops

/-! ## The search -/

/-- A vertex that waits for its turn, with the cost at which it was reached. -/
structure Waiting (R : Type) where
  cost : R
  vertex : Nat
deriving Repr, Inhabited

/-- By cost, and at one cost by number. -/
def Waiting.compare (a b : Waiting R) : Ordering :=
  (total a.cost b.cost).then (Ord.compare a.vertex b.vertex)

/-- What a search knows: the least cost of every vertex reached so far, its last hop, and the
vertices that wait, in order. -/
structure Search (R : Type) where
  costs : Std.TreeMap Nat R := ∅
  last : LastHops := ∅
  frontier : List (Waiting R) := []

/-- A search that stands at a vertex. -/
def Search.at (start : Nat) : Search R :=
  { costs := (∅ : Std.TreeMap Nat R).insert start 0.0
    frontier := [⟨0.0, start⟩] }

/-- Whether a cost is lower than the one known for a vertex. -/
def Search.improves (s : Search R) (vertex : Nat) (cost : R) : Bool :=
  s.costs[vertex]?.all fun known => cost < known

/-- Whether a vertex was reached at a lower cost since the entry was listed. -/
def Search.isStale (s : Search R) (entry : Waiting R) : Bool :=
  s.costs[entry.vertex]?.any fun known => known < entry.cost

/-- Goes along one polyline from a vertex. -/
def Search.follow (net : Network R) (entry : Waiting R) (s : Search R) (line : Nat) : Search R :=
  match net.edges[line]? with
  | none => s
  | some edge =>
    let next := edge.across entry.vertex
    let cost := entry.cost + edge.length
    if s.improves next cost then
      { costs := s.costs.insert next cost
        last := s.last.insert next ⟨line, entry.vertex⟩
        frontier := Ascending.insert Waiting.compare ⟨cost, next⟩ s.frontier }
    else s

def Search.expand (net : Network R) (s : Search R) (entry : Waiting R) : Search R :=
  (net.edgeIdsAt entry.vertex).foldl (Search.follow net entry) s

inductive Search.Outcome where
  | reached (last : LastHops)
  | unreachable
  | unfinished

/-- Takes entries from the frontier until the target comes up or none is left. -/
def Search.run (net : Network R) (target : Nat) : Nat → Search R → Search.Outcome
  | 0, _ => .unfinished
  | fuel + 1, s =>
    match s.frontier with
    | [] => .unreachable
    | entry :: rest =>
      let taken := { s with frontier := rest }
      if entry.vertex = target then .reached s.last
      else if s.isStale entry then Search.run net target fuel taken
      else Search.run net target fuel (taken.expand net entry)

/-- Enough for any search: every vertex lists its neighbours once. -/
def searchFuel (net : Network R) : Nat :=
  net.incident.toList.foldr (fun lines fuel => lines.length + fuel) 2

def search (net : Network R) (start finish : Nat) : Search.Outcome :=
  Search.run net finish net.searchFuel (Search.at start)

/-! ## Routes -/

/-- The cheapest chain of polylines between two vertices as one polyline. From a vertex to itself it
is empty. -/
def route (net : Network R) (start finish : Nat) : Logged (Event R) (Option (Polyline R)) :=
  if start = finish then ⟨some {}, []⟩
  else
    match net.search start finish with
    | .reached last => ⟨net.reconstruct last finish, []⟩
    | .unreachable | .unfinished => ⟨none, [.noRoute start finish]⟩

/-- The cheapest chain of polylines between two places, which must be vertices. -/
def shortestPath (net : Network R) (start finish : Vec3 R) :
    Logged (Event R) (Option (Polyline R)) :=
  match net.vertexId? start, net.vertexId? finish with
  | some s, some f => net.route s f
  | _, _ => ⟨none, []⟩

/-- The length of a route in meters. An empty one has none. -/
def routeLength (line : Polyline R) : R := line.length.toOption.getD 0.0

/-- Joined segments as the answer of a search. One without any length is no answer. -/
def joinSegments (segments : List (Polyline R)) : Option (Polyline R) :=
  let path := Polyline.join segments (some 0.0)
  if path.size < 2 then none else some path

end Network

end TransitShapes
