import TransitShapes.Network.Route
import TransitShapes.Proofs.Network.Invariant
import TransitShapes.Proofs.Scalar.Laws

/-! # Chains of polylines and walks along edges

A chain is made of stored polylines that meet in vertices, each in one of its two directions. A walk
is what a search sees of it: numbers of edges and vertices. In a well-formed network every chain is
a walk and every walk a chain, at the same cost.
-/

namespace TransitShapes

open Scalar

variable {R : Type}

/-! ## The two directions of a polyline -/

theorem Polyline.ends?_eq_some_iff (line : Polyline R) (first last : Vec3 R) :
    line.ends? = some (first, last) ↔ line.first? = some first ∧ line.last? = some last := by
  simp [ends?, Option.bind_eq_some_iff]

theorem Polyline.ends?_reversed (line : Polyline R) (first last : Vec3 R) :
    line.reversed.ends? = some (first, last) ↔ line.ends? = some (last, first) := by
  simp only [ends?_eq_some_iff, first?, last?, reversed, List.head?_reverse, List.getLast?_reverse]
  exact and_comm

variable [Scalar R]

theorem Polyline.unsigned_pathLength [LawfulSign R] (line : Polyline R) :
    Unsigned line.pathLength := by
  suffices ∀ (segments : List (Vec3 R × Vec3 R)) (sum : R), Unsigned sum →
      Unsigned (segments.foldl (fun sum ends => sum + ends.1.distance ends.2) sum) from
    this _ _ unsigned_zero
  intro segments
  induction segments with
  | nil => exact fun _ h => h
  | cons segment rest ih =>
    intro sum hsum
    exact ih _ (LawfulSign.unsigned_add hsum (unsigned_distance _ _))

namespace Network

/-! ## Chains -/

/-- A polyline of a network in a direction of travel. -/
structure Ride (R : Type) where
  id : Nat
  line : Polyline R

/-- A ride is a stored polyline, forward or reversed, and leads from one vertex to another. -/
structure Ride.Joins (net : Network R) (ride : Ride R) (a b : Nat) : Prop where
  stored : ∃ line, net.collection.get? ride.id = some line ∧
    (ride.line = line ∨ ride.line = line.reversed)
  ends : ∃ first last, ride.line.ends? = some (first, last) ∧
    net.vertexId? first = some a ∧ net.vertexId? last = some b

/-- Rides from one vertex to another, each from where the one before it ends. -/
inductive Chain (net : Network R) (a : Nat) : List (Ride R) → Nat → Prop where
  | nil : Chain net a [] a
  | snoc {rides : List (Ride R)} {ride : Ride R} {b c : Nat} :
      Chain net a rides b → ride.Joins net b c → Chain net a (rides ++ [ride]) c

/-- The length of an edge as the network has it. -/
def lengthOf (net : Network R) (id : Nat) : R := net.edges[id]?.elim 0.0 Edge.length

theorem lengthOf_eq {net : Network R} {id : Nat} {edge : Edge R} (h : net.edges[id]? = some edge) :
    net.lengthOf id = edge.length := by
  unfold lengthOf
  rw [h]
  rfl

/-- The lengths of the edges of some rides, summed up from the first one on. -/
def chainCost (net : Network R) (rides : List (Ride R)) : R :=
  rides.foldl (fun cost ride => cost + net.lengthOf ride.id) 0.0

theorem chainCost_append_singleton (net : Network R) (rides : List (Ride R)) (ride : Ride R) :
    net.chainCost (rides ++ [ride]) = net.chainCost rides + net.lengthOf ride.id := by
  simp [chainCost]

/-! ## Walks -/

/-- Hops from one vertex to another along the edges that each vertex lists, with the cost of all of
them. -/
inductive Walk (net : Network R) (a : Nat) : List Hop → Nat → R → Prop where
  | nil : Walk net a [] a 0.0
  | snoc {hops : List Hop} {b id : Nat} {cost : R} {edge : Edge R} :
      Walk net a hops b cost → id ∈ net.edgeIdsAt b → net.edges[id]? = some edge →
      Walk net a (hops ++ [⟨id, b⟩]) (edge.across b) (cost + edge.length)

/-- No edge has a length with a minus sign. -/
def UnsignedEdges (net : Network R) : Prop :=
  ∀ (id : Nat) (edge : Edge R), net.edges[id]? = some edge → Unsigned edge.length

/-- The length of every edge is a number. -/
def NumberEdges (net : Network R) : Prop :=
  ∀ (id : Nat) (edge : Edge R), net.edges[id]? = some edge → ¬ IsNaN edge.length

theorem Walk.unsigned [LawfulSign R] {net : Network R} (hedges : net.UnsignedEdges) {a b : Nat}
    {hops : List Hop} {cost : R} (h : Walk net a hops b cost) : Unsigned cost := by
  induction h with
  | nil => exact unsigned_zero
  | snoc _ _ hedge ih => exact LawfulSign.unsigned_add ih (hedges _ _ hedge)

theorem Walk.not_isNaN [LawfulSum R] {net : Network R} (hedges : net.UnsignedEdges)
    (hnumber : net.NumberEdges) {a b : Nat} {hops : List Hop} {cost : R}
    (h : Walk net a hops b cost) : ¬ IsNaN cost := by
  induction h with
  | nil => exact not_isNaN_zero
  | snoc hwalk _ hedge ih =>
    rw [LawfulSum.isNaN_add (hwalk.unsigned hedges) (hedges _ _ hedge), not_or]
    exact ⟨ih, hnumber _ _ hedge⟩

/-! ## Every chain is a walk -/

theorem WellFormed.exists_line {net : Network R} (h : WellFormed net) {id : Nat} {edge : Edge R}
    (hedge : net.edges[id]? = some edge) : ∃ line first last, net.collection.get? id = some line ∧
      line.ends? = some (first, last) ∧ edge.length = line.pathLength ∧
      net.vertexId? first = some edge.start ∧ net.vertexId? last = some edge.finish := by
  have hlt : id < net.collection.size := by
    rw [← h.edges_size]
    exact (Array.getElem?_eq_some_iff.mp hedge).1
  have hget : net.collection.get? id = some net.collection.lines[id] :=
    Array.getElem?_eq_getElem hlt
  obtain ⟨⟨first, last⟩, hends⟩ := Polyline.exists_ends _ (h.collection.two_points hget)
  obtain ⟨start, finish, hown, hstart, hfinish⟩ := h.edge hget hends
  rw [hedge] at hown
  cases hown
  exact ⟨_, first, last, hget, hends, rfl, hstart, hfinish⟩

theorem WellFormed.unsignedEdges [LawfulSign R] {net : Network R} (h : WellFormed net) :
    net.UnsignedEdges := by
  intro id edge hedge
  obtain ⟨line, _, _, _, _, hlength, _⟩ := h.exists_line hedge
  rw [hlength]
  exact line.unsigned_pathLength

theorem WellFormed.edge_of_joins {net : Network R} (h : WellFormed net) {ride : Ride R}
    {a b : Nat} (hride : ride.Joins net a b) : ∃ edge, net.edges[ride.id]? = some edge ∧
      (edge.start = a ∧ edge.finish = b ∨ edge.start = b ∧ edge.finish = a) := by
  obtain ⟨⟨line, hget, hline⟩, first, last, hends, ha, hb⟩ := hride
  rcases hline with hline | hline <;> rw [hline] at hends
  · obtain ⟨start, finish, hedge, hstart, hfinish⟩ := h.edge hget hends
    cases hstart.symm.trans ha
    cases hfinish.symm.trans hb
    exact ⟨_, hedge, Or.inl ⟨rfl, rfl⟩⟩
  · obtain ⟨start, finish, hedge, hstart, hfinish⟩ :=
      h.edge hget ((line.ends?_reversed first last).mp hends)
    cases hstart.symm.trans hb
    cases hfinish.symm.trans ha
    exact ⟨_, hedge, Or.inr ⟨rfl, rfl⟩⟩

theorem WellFormed.across_of_joins {net : Network R} (h : WellFormed net) {ride : Ride R}
    {a b : Nat} (hride : ride.Joins net a b) : ∃ edge, net.edges[ride.id]? = some edge ∧
      ride.id ∈ net.edgeIdsAt a ∧ edge.across a = b := by
  obtain ⟨edge, hedge, ⟨rfl, rfl⟩ | ⟨rfl, rfl⟩⟩ := h.edge_of_joins hride
  · exact ⟨edge, hedge, h.mem_edgeIdsAt.mpr ⟨edge, hedge, Or.inl rfl⟩, if_pos rfl⟩
  · refine ⟨edge, hedge, h.mem_edgeIdsAt.mpr ⟨edge, hedge, Or.inr rfl⟩, ?_⟩
    unfold Edge.across
    split
    case isTrue hloop => exact hloop.symm
    case isFalse => rfl

theorem Chain.exists_walk {net : Network R} (h : WellFormed net) {a b : Nat}
    {rides : List (Ride R)} (hchain : net.Chain a rides b) :
    ∃ hops, net.Walk a hops b (net.chainCost rides) := by
  induction hchain with
  | nil => exact ⟨[], .nil⟩
  | @snoc rides ride b c _ hride ih =>
    obtain ⟨hops, hwalk⟩ := ih
    obtain ⟨edge, hedge, hmem, hacross⟩ := h.across_of_joins hride
    rw [chainCost_append_singleton, lengthOf_eq hedge, ← hacross]
    exact ⟨_, hwalk.snoc hmem hedge⟩

/-! ## Every walk is a chain -/

theorem travelled?_eq_some {net : Network R} {hop : Hop} {line : Polyline R} {edge : Edge R}
    (hget : net.collection.get? hop.line = some line) (hedge : net.edges[hop.line]? = some edge) :
    net.travelled? hop = some (if edge.start = hop.origin then line else line.reversed) := by
  unfold travelled?
  rw [hget, hedge]
  rfl

theorem WellFormed.joins_of_hop {net : Network R} (h : WellFormed net) {id b : Nat} {edge : Edge R}
    (hmem : id ∈ net.edgeIdsAt b) (hedge : net.edges[id]? = some edge) :
    ∃ line, net.travelled? ⟨id, b⟩ = some line ∧ Ride.Joins net ⟨id, line⟩ b (edge.across b) := by
  obtain ⟨line, first, last, hget, hends, _, hstart, hfinish⟩ := h.exists_line hedge
  refine ⟨_, travelled?_eq_some hget hedge, ?_⟩
  obtain ⟨own, hown, htouch⟩ := h.mem_edgeIdsAt.mp hmem
  cases hedge.symm.trans hown
  unfold Edge.across
  by_cases hforward : edge.start = b
  · rw [if_pos hforward, if_pos hforward]
    exact ⟨⟨line, hget, Or.inl rfl⟩, first, last, hends, hforward ▸ hstart, hfinish⟩
  · rw [if_neg hforward, if_neg hforward]
    have hback : edge.finish = b := htouch.resolve_left hforward
    exact ⟨⟨line, hget, Or.inr rfl⟩, last, first, (line.ends?_reversed last first).mpr hends,
      hback ▸ hfinish, hstart⟩

theorem Walk.exists_chain {net : Network R} (h : WellFormed net) {a b : Nat} {hops : List Hop}
    {cost : R} (hwalk : net.Walk a hops b cost) : ∃ rides, net.Chain a rides b ∧
      net.chainCost rides = cost ∧ hops.filterMap net.travelled? = rides.map Ride.line := by
  induction hwalk with
  | nil => exact ⟨[], .nil, rfl, rfl⟩
  | @snoc hops b id cost edge _ hmem hedge ih =>
    obtain ⟨rides, hchain, hcost, hlines⟩ := ih
    obtain ⟨line, hline, hjoins⟩ := h.joins_of_hop hmem hedge
    refine ⟨rides ++ [⟨id, line⟩], hchain.snoc hjoins, ?_, ?_⟩
    · rw [chainCost_append_singleton, hcost, lengthOf_eq hedge]
    · rw [List.filterMap_append, List.map_append, hlines]
      simp [hline]

end Network

end TransitShapes
