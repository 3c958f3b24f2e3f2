import TransitShapes.Proofs.Network.Visits
import TransitShapes.Proofs.Polyline.Length

/-! # What routes and tours cost

A route is found wherever there is a chain of polylines, also where a length is not a number. Where
nothing is rounded its length is the cost of a cheapest chain, and no tour over the same vertices
costs less than the routes between them.
-/

namespace TransitShapes

open Scalar

variable {R : Type} [Scalar R]

theorem Vec3.SameKey.eq [LawfulExact R] {p q : Vec3 R} (h : p.SameKey q) : p = q := by
  obtain ⟨hx, hy, hz⟩ := h
  exact Vec3.ext (LawfulExact.eq_of_alike hx) (LawfulExact.eq_of_alike hy)
    (LawfulExact.eq_of_alike hz)

namespace Network

variable {net : Network R}

/-! ## Where routes are found -/

theorem WellFormed.route_eq_none_iff [LawfulSum R] (h : WellFormed net) {a b : Nat} :
    (net.route a b).value = none ↔ ¬ ∃ rides, net.Chain a rides b := by
  by_cases hne : a = b
  · subst hne
    unfold route
    rw [if_pos rfl]
    exact iff_of_false (by simp) (not_not_intro ⟨[], .nil⟩)
  · cases hroute : (net.route a b).value with
    | some segment =>
      obtain ⟨rides, hchain, -⟩ := h.exists_chain_of_route hne hroute
      exact iff_of_false (by simp) (not_not_intro ⟨rides, hchain⟩)
    | none =>
      refine iff_of_true rfl ?_
      rintro ⟨rides, hchain⟩
      obtain ⟨hops, hwalk⟩ := hchain.exists_walk h
      have hends := Search.ends_search h.unsignedEdges a b
      unfold route at hroute
      rw [if_neg hne] at hroute
      generalize net.search a b = outcome at hends hroute
      cases hends with
      | unreachable hinv hfrontier =>
        exact hinv.unreachable hfrontier hops _ hwalk
      | reached hinv hfrontier htarget =>
        obtain ⟨found, cost, -, -, htraced⟩ := hinv.exists_traced hfrontier htarget
        have hback := (htraced.leadsBack hinv.last_start).reconstruct net
        simp [hback] at hroute

/-! ## The cost of a chain -/

theorem Chain.unsigned_chainCost [LawfulSign R] (h : WellFormed net) {a b : Nat}
    {rides : List (Ride R)} (hchain : net.Chain a rides b) : Unsigned (net.chainCost rides) := by
  obtain ⟨hops, hwalk⟩ := hchain.exists_walk h
  exact hwalk.unsigned h.unsignedEdges

theorem Chain.last_join (h : WellFormed net) {a b : Nat} {rides : List (Ride R)}
    (hchain : net.Chain a rides b) (threshold : Option R) :
    ∀ p ∈ (Polyline.join (rides.map Ride.line) threshold).points.getLast?,
      net.vertexId? p = some b := by
  intro p hp
  rcases hchain.runs h threshold with ⟨rfl, -⟩ | hruns
  · simp [Polyline.join] at hp
  · obtain ⟨q, hq, hb⟩ := hruns.last
    cases hq.symm.trans hp
    exact hb

section Exact

variable [LawfulExact R]

theorem chainCost_append (net : Network R) (rides others : List (Ride R)) :
    net.chainCost (rides ++ others) = net.chainCost rides + net.chainCost others := by
  unfold chainCost
  rw [List.foldl_append]
  exact LawfulExact.foldl_add (fun ride : Ride R => net.lengthOf ride.id) _ _

theorem WellFormed.lengthOf_of_joins (h : WellFormed net) {ride : Ride R} {a b : Nat}
    (hride : ride.Joins net a b) : net.lengthOf ride.id = ride.line.pathLength := by
  obtain ⟨line, hget, hline⟩ := hride.stored
  obtain ⟨ends, hends⟩ := line.exists_ends (h.collection.two_points hget)
  obtain ⟨start, finish, hedge, -⟩ := h.edge hget hends
  rw [lengthOf_eq hedge]
  rcases hline with hline | hline
  · rw [hline]
  · rw [hline, Polyline.pathLength_reversed]

theorem WellFormed.lengthThrough_appendPoints (h : WellFormed net) {v : Nat}
    {points incoming : List (Vec3 R)}
    (hlast : ∀ p ∈ points.getLast?, net.vertexId? p = some v)
    (hfirst : ∀ p ∈ incoming.head?, net.vertexId? p = some v) :
    Polyline.lengthThrough (Polyline.appendPoints (some 0.0) points incoming) =
      Polyline.lengthThrough points + Polyline.lengthThrough incoming := by
  apply Polyline.lengthThrough_appendPoints
  intro p hp q hq
  exact ((h.agree.same_vertex_iff (hlast p hp)).mp (hfirst q hq)).eq

theorem Chain.pathLength_join (h : WellFormed net) {a b : Nat} {rides : List (Ride R)}
    (hchain : net.Chain a rides b) :
    (Polyline.join (rides.map Ride.line) (some 0.0)).pathLength = net.chainCost rides := by
  induction hchain with
  | nil => rfl
  | @snoc rides ride b c hchain hride ih =>
    have hfirst : ∀ p ∈ ride.line.points.head?, net.vertexId? p = some b := by
      intro p hp
      obtain ⟨q, hq, hb⟩ := (h.runs_of_joins hride).first
      cases hq.symm.trans hp
      exact hb
    rw [chainCost_append_singleton, h.lengthOf_of_joins hride, ← ih, Polyline.pathLength_eq,
      Polyline.pathLength_eq, Polyline.pathLength_eq, List.map_append, List.map_singleton,
      Polyline.points_join_append_singleton]
    exact h.lengthThrough_appendPoints (hchain.last_join h _) hfirst

end Exact

/-! ## Least costs -/

/-- The cost of a cheapest chain between two vertices. -/
structure IsLeastCost (net : Network R) (a b : Nat) (cost : R) : Prop where
  exists_chain : ∃ rides, net.Chain a rides b ∧ net.chainCost rides = cost
  le_cost : ∀ rides, net.Chain a rides b → cost ≤ net.chainCost rides

theorem WellFormed.isLeastCost_of_route [LawfulExact R] (h : WellFormed net) {a b : Nat}
    {segment : Polyline R} (hroute : (net.route a b).value = some segment) :
    net.IsLeastCost a b segment.pathLength := by
  by_cases hne : a = b
  · subst hne
    unfold route at hroute
    rw [if_pos rfl] at hroute
    cases hroute
    refine ⟨⟨[], .nil, rfl⟩, fun rides hchain => ?_⟩
    exact (hchain.unsigned_chainCost h).nonneg (LawfulExact.not_isNaN _)
  · have hnumber : net.NumberEdges := fun _ _ _ => LawfulExact.not_isNaN _
    rcases route_value h hnumber hne with ⟨hnone, -⟩ | ⟨rides, hchain, hsome, hleast⟩
    · rw [hnone] at hroute
      cases hroute
    · rw [hsome] at hroute
      cases hroute
      rw [hchain.pathLength_join h]
      exact ⟨⟨rides, hchain, rfl⟩, hleast⟩

/-! ## Tours -/

/-- Rides from a vertex to a vertex, on which the listed vertices were visited in their order. -/
inductive Tour (net : Network R) (start : Nat) : List (Ride R) → Nat → List Nat → Prop where
  | start : Tour net start [] start []
  | ride {rides : List (Ride R)} {ride : Ride R} {b c : Nat} {visited : List Nat} :
      Tour net start rides b visited → ride.Joins net b c →
      Tour net start (rides ++ [ride]) c visited
  | visit {rides : List (Ride R)} {b : Nat} {visited : List Nat} :
      Tour net start rides b visited → Tour net start rides b (visited ++ [b])

theorem Tour.chain {start b : Nat} {rides : List (Ride R)} {visited : List Nat}
    (h : net.Tour start rides b visited) : net.Chain start rides b := by
  induction h with
  | start => exact .nil
  | ride _ hride ih => exact ih.snoc hride
  | visit _ ih => exact ih

/-- The least costs from each vertex of a list to the next. -/
def LeastCosts (net : Network R) (vertices : List Nat) (costs : List R) : Prop :=
  List.Forall₂ (fun step cost => net.IsLeastCost step.1 step.2 cost)
    (vertices.zip vertices.tail) costs

/-- The sum of some costs, from the first one on. -/
def totalCost (costs : List R) : R := costs.foldl (fun sum cost => sum + cost) 0.0

theorem totalCost_append_singleton (costs : List R) (cost : R) :
    totalCost (costs ++ [cost]) = totalCost costs + cost := by
  simp [totalCost]

theorem exists_of_forall₂_append {α β : Type} {r : α → β → Prop} {first second : List α}
    {values : List β} (h : List.Forall₂ r (first ++ second) values) :
    ∃ others rest, values = others ++ rest ∧ List.Forall₂ r first others ∧
      List.Forall₂ r second rest := by
  induction first generalizing values with
  | nil => exact ⟨[], values, rfl, .nil, h⟩
  | cons a first ih =>
    obtain ⟨b, values, hab, hvalues, rfl⟩ := List.forall₂_cons_left_iff.mp h
    obtain ⟨others, rest, rfl, hothers, hrest⟩ := ih hvalues
    exact ⟨b :: others, rest, rfl, .cons hab hothers, hrest⟩

theorem exists_of_forall₂_append_singleton {α β : Type} {r : α → β → Prop} {first : List α} {a : α}
    {values : List β} (h : List.Forall₂ r (first ++ [a]) values) :
    ∃ others b, values = others ++ [b] ∧ List.Forall₂ r first others ∧ r a b := by
  obtain ⟨others, rest, rfl, hothers, hrest⟩ := exists_of_forall₂_append h
  obtain ⟨b, rest, hab, hnil, rfl⟩ := List.forall₂_cons_left_iff.mp hrest
  cases hnil
  exact ⟨others, b, rfl, hothers, hab⟩

/-- A tour splits where it visits its last vertex. Up to there it costs no less than the cheapest
chains between the vertices that it visits. -/
theorem Tour.exists_split [LawfulExact R] (h : WellFormed net) {start b : Nat}
    {rides : List (Ride R)} {visited : List Nat} (htour : net.Tour start rides b visited) :
    ∀ first v, visited = first ++ [v] → ∃ early late, rides = early ++ late ∧
      net.Chain start early v ∧ net.Chain v late b ∧
      ∀ costs, net.LeastCosts visited costs → totalCost costs ≤ net.chainCost early := by
  induction htour with
  | start =>
    intro first v hv
    simp at hv
  | ride _ hride ih =>
    intro first v hv
    obtain ⟨early, late, rfl, hearly, hlate, hcosts⟩ := ih first v hv
    exact ⟨early, late ++ [_], List.append_assoc .., hearly, hlate.snoc hride, hcosts⟩
  | @visit rides b visited htour ih =>
    intro first v hv
    obtain ⟨rfl, hb⟩ := List.append_inj' hv rfl
    cases hb
    refine ⟨rides, [], (List.append_nil rides).symm, htour.chain, .nil, ?_⟩
    intro costs hcosts
    rcases List.eq_nil_or_concat visited with rfl | ⟨front, u, rfl⟩
    · cases hcosts
      exact (htour.chain.unsigned_chainCost h).nonneg (LawfulExact.not_isNaN _)
    · rw [List.concat_eq_append] at hcosts ih
      obtain ⟨early, late, rfl, -, hlate, hearlier⟩ := ih front u rfl
      unfold LeastCosts at hcosts
      rw [Polyline.zip_tail_append List.getLast?_concat] at hcosts
      obtain ⟨others, cost, rfl, hothers, hcost⟩ := exists_of_forall₂_append_singleton hcosts
      rw [totalCost_append_singleton, chainCost_append]
      exact LawfulExact.add_le_add (hearlier others hothers) (hcost.le_cost late hlate)

theorem Tour.totalCost_le [LawfulExact R] (h : WellFormed net) {start finish : Nat}
    {rides : List (Ride R)} {visited : List Nat} (htour : net.Tour start rides finish visited)
    (hne : visited ≠ []) {costs : List R} (hcosts : net.LeastCosts visited costs) :
    totalCost costs ≤ net.chainCost rides := by
  obtain ⟨early, late, rfl, -, hlate, hearly⟩ :=
    htour.exists_split h _ _ (List.dropLast_append_getLast hne).symm
  have hrest := (hlate.unsigned_chainCost h).nonneg (LawfulExact.not_isNaN _)
  rw [chainCost_append, ← LawfulExact.add_zero (totalCost costs)]
  exact LawfulExact.add_le_add (hearly costs hcosts) hrest

end Network

end TransitShapes
