import TransitShapes.Proofs.Network.Settling
import TransitShapes.Proofs.Scalar.Sum

/-! # The route that a search finds is a cheapest one

Any walk to the target leads over settled vertices, each at no more than the walk costs up to there,
until it comes to an entry that waits. So when the target is next in line no walk costs less, and
when nothing is in line there is no walk at all.
-/

namespace TransitShapes.Network

open Scalar

variable {R : Type} [Scalar R] {net : Network R}

/-- There is a walk to a vertex whose cost is a number. -/
def MeasuredTo (net : Network R) (start v : Nat) : Prop :=
  ∃ hops cost, net.Walk start hops v cost ∧ ¬ IsNaN cost

namespace Search

variable {s : Search R} {start target : Nat}

/-! ## Turns -/

theorem foldr_length_eq_sum (lists : List (List Nat)) (n : Nat) :
    lists.foldr (fun ids fuel => ids.length + fuel) n =
      ∑ v ∈ Finset.range lists.length, (lists.getD v []).length + n := by
  induction lists with
  | nil => simp
  | cons ids rest ih =>
    rw [List.foldr_cons, ih, List.length_cons, Finset.sum_range_succ']
    simp only [List.getD_cons_succ, List.getD_cons_zero]
    omega

theorem potential_at_lt_searchFuel (net : Network R) (start : Nat) :
    potential net (Search.at start) < net.searchFuel := by
  have hsum : net.searchFuel =
      ∑ v ∈ Finset.range net.incident.size, (net.edgeIdsAt v).length + 2 := by
    unfold searchFuel
    rw [foldr_length_eq_sum]
    simp [edgeIdsAt, Array.getD_eq_getD_getElem?, List.getD_eq_getElem?_getD]
  have hpending : pending net (Search.at start) ≤
      ∑ v ∈ Finset.range net.incident.size, (net.edgeIdsAt v).length := by
    classical
    exact Finset.sum_le_sum_of_subset (Finset.filter_subset _ _)
  have hfrontier : (Search.at start : Search R).frontier.length = 1 := rfl
  unfold potential
  omega

/-- A search always ends, and with an answer. -/
theorem ends_search [LawfulSum R] (hedges : net.UnsignedEdges) (start target : Nat) :
    Ends net start target (net.search start target) :=
  (invariant_at net start target).run hedges (potential_at_lt_searchFuel net start)

/-! ## No walk costs less -/

/-- A vertex that was reached has a cost that is a number, wherever there is a walk at such a
cost. -/
def Clear (net : Network R) (start : Nat) (s : Search R) : Prop :=
  ∀ ⦃v : Nat⦄ ⦃known : R⦄, s.costs[v]? = some known → net.MeasuredTo start v → ¬ IsNaN known

theorem Sound.clear [LawfulSum R] (h : Sound net start s) (hedges : net.UnsignedEdges)
    (hnumber : net.NumberEdges) : Clear net start s := by
  intro v known hknown _
  obtain ⟨hops, htraced⟩ := h.traced hknown
  exact htraced.walk.not_isNaN hedges hnumber

theorem Invariant.le_walk [LawfulSum R] (h : Invariant net start target s)
    (hedges : net.UnsignedEdges) (hclear : Clear net start s) {v : Nat} {hops : List Hop}
    {cost : R} (hwalk : net.Walk start hops v cost) (hcost : ¬ IsNaN cost) :
    (∃ k, s.Settled v k ∧ k ≤ cost) ∨ ∃ entry ∈ s.frontier, entry.cost ≤ cost := by
  induction hwalk with
  | nil =>
    rcases s.settled_or_waits h.costs_start with hsettled | hwaits
    · exact Or.inl ⟨_, hsettled, LawfulSign.zero_le_zero⟩
    · exact Or.inr ⟨_, hwaits, LawfulSign.zero_le_zero⟩
  | @snoc hops b id cost edge hwalk hid hedge ih =>
    have hunsigned := hwalk.unsigned hedges
    have hlength := hedges id edge hedge
    obtain ⟨hbefore, hown⟩ := not_or.mp ((LawfulSum.isNaN_add hunsigned hlength).not.mp hcost)
    rcases ih hbefore with ⟨k, hsettled, hle⟩ | ⟨entry, hentry, hle⟩
    · obtain ⟨known, hknown, hnot⟩ := h.relaxed hsettled id hid edge hedge
      have hk := h.unsigned_cost hedges hsettled.1
      have hover : k + edge.length ≤ cost + edge.length :=
        LawfulSum.sum_le_sum hk hunsigned hlength hown hle
      have hunder : known ≤ k + edge.length :=
        le_of_not_lt (LawfulOrder.isNumber_of_le hover).1
          (hclear hknown ⟨_, _, hwalk.snoc hid hedge, hcost⟩) hnot
      have hbound := LawfulOrder.le_trans hunder hover
      rcases s.settled_or_waits hknown with hnext | hwaits
      · exact Or.inl ⟨known, hnext, hbound⟩
      · exact Or.inr ⟨_, hwaits, hbound⟩
    · exact Or.inr ⟨entry, hentry,
        LawfulOrder.le_trans hle (LawfulSum.le_sum hunsigned hlength hbefore hown)⟩

theorem Invariant.exists_traced (h : Invariant net start target s) {entry : Waiting R}
    {rest : List (Waiting R)} (hfrontier : s.frontier = entry :: rest)
    (htarget : entry.vertex = target) : ∃ hops cost, s.costs[target]? = some cost ∧
      (cost = entry.cost ∨ cost < entry.cost) ∧ Traced net s start hops target cost := by
  obtain ⟨cost, hcost, hle⟩ := h.waiting entry (hfrontier ▸ List.mem_cons_self)
  rw [htarget] at hcost
  obtain ⟨hops, htraced⟩ := h.traced hcost
  exact ⟨hops, cost, hcost, hle, htraced⟩

/-- What a search that reached its target found: a walk that leads back along the last hops and
costs no more than any other. -/
theorem Invariant.reached [LawfulSum R] (h : Invariant net start target s)
    (hedges : net.UnsignedEdges) (hclear : Clear net start s) {entry : Waiting R}
    {rest : List (Waiting R)} (hfrontier : s.frontier = entry :: rest)
    (htarget : entry.vertex = target) (hto : net.MeasuredTo start target) :
    ∃ hops cost, hopsTo s.last s.last.size target [] = some hops ∧
      net.Walk start hops target cost ∧ ¬ IsNaN cost ∧
      ∀ others bound, net.Walk start others target bound → ¬ IsNaN bound → cost ≤ bound := by
  obtain ⟨hops, cost, hcost, hle, htraced⟩ := h.exists_traced hfrontier htarget
  have hnumber := hclear hcost hto
  refine ⟨hops, cost, (htraced.leadsBack h.last_start).hopsTo, htraced.walk, hnumber,
    fun others bound hwalk hbound => ?_⟩
  have hentry : ¬ IsNaN entry.cost := by
    rcases hle with rfl | hlt
    · exact hnumber
    · exact (LawfulOrder.isNumber_of_le (le_of_lt hlt)).2
  have hfirst : cost ≤ entry.cost := by
    rcases hle with rfl | hlt
    · exact not_not.mp hentry
    · exact le_of_lt hlt
  rcases h.le_walk hedges hclear hwalk hbound with ⟨k, hsettled, _⟩ | ⟨other, hother, hwaits⟩
  · exact absurd hsettled (h.target k)
  · refine LawfulOrder.le_trans hfirst (LawfulOrder.le_trans ?_ hwaits)
    rw [hfrontier, List.mem_cons] at hother
    rcases hother with rfl | hother
    · exact not_not.mp hentry
    · exact le_of_not_lt (LawfulOrder.isNumber_of_le hwaits).1 hentry
        (h.not_lt_head hfrontier hother)

theorem Invariant.settled_of_walk (h : Invariant net start target s) (hfrontier : s.frontier = [])
    {v : Nat} {hops : List Hop} {cost : R} (hwalk : net.Walk start hops v cost) :
    ∃ k, s.Settled v k := by
  induction hwalk with
  | nil => exact ⟨0.0, h.costs_start, by simp [hfrontier]⟩
  | snoc _ hid hedge ih =>
    obtain ⟨k, hk⟩ := ih
    obtain ⟨known, hknown, -⟩ := h.relaxed hk _ hid _ hedge
    exact ⟨known, hknown, by simp [hfrontier]⟩

theorem Invariant.unreachable (h : Invariant net start target s) (hfrontier : s.frontier = [])
    (hops : List Hop) (cost : R) : ¬ net.Walk start hops target cost := by
  intro hwalk
  obtain ⟨k, hk⟩ := h.settled_of_walk hfrontier hwalk
  exact h.target k hk

end Search

/-! ## The theorem -/

theorem WellFormed.exists_chain_of_reached [LawfulSum R] (hnet : WellFormed net)
    {start finish : Nat} {s : Search R} (h : Search.Invariant net start finish s)
    (hclear : Search.Clear net start s) {entry : Waiting R} {rest : List (Waiting R)}
    (hfrontier : s.frontier = entry :: rest) (hfinish : entry.vertex = finish)
    (hto : net.MeasuredTo start finish) :
    ∃ rides, net.Chain start rides finish ∧
      net.reconstruct s.last finish = some (Polyline.join (rides.map Ride.line) (some 0.0)) ∧
      ¬ IsNaN (net.chainCost rides) ∧ ∀ others, net.Chain start others finish →
        ¬ IsNaN (net.chainCost others) → net.chainCost rides ≤ net.chainCost others := by
  obtain ⟨hops, cost, hhops, hwalk, hcost, hleast⟩ :=
    h.reached hnet.unsignedEdges hclear hfrontier hfinish hto
  obtain ⟨rides, hchain, rfl, hlines⟩ := hwalk.exists_chain hnet
  refine ⟨rides, hchain, ?_, hcost, fun others hothers hnumber => ?_⟩
  · simp only [reconstruct, hhops, Option.map_some, joinHops, hlines]
  · obtain ⟨hops', hwalk'⟩ := hothers.exists_walk hnet
    exact hleast hops' _ hwalk' hnumber

theorem route_value [LawfulSum R] (hnet : WellFormed net) (hnumber : net.NumberEdges)
    {start finish : Nat} (hne : start ≠ finish) :
    ((net.route start finish).value = none ∧ ∀ rides, ¬ net.Chain start rides finish) ∨
      ∃ rides, net.Chain start rides finish ∧
        (net.route start finish).value = some (Polyline.join (rides.map Ride.line) (some 0.0)) ∧
        ∀ others, net.Chain start others finish → net.chainCost rides ≤ net.chainCost others := by
  have hedges := hnet.unsignedEdges
  have hends := Search.ends_search hedges start finish
  unfold route
  rw [if_neg hne]
  generalize net.search start finish = outcome at hends
  cases hends with
  | unreachable h hfrontier =>
    refine Or.inl ⟨rfl, fun rides hchain => ?_⟩
    obtain ⟨hops, hwalk⟩ := hchain.exists_walk hnet
    exact h.unreachable hfrontier hops _ hwalk
  | reached h hfrontier hfinish =>
    obtain ⟨back, known, -, -, htraced⟩ := h.exists_traced hfrontier hfinish
    obtain ⟨rides, hchain, hvalue, -, hleast⟩ :=
      hnet.exists_chain_of_reached h (h.clear hedges hnumber) hfrontier hfinish
        ⟨back, known, htraced.walk, htraced.walk.not_isNaN hedges hnumber⟩
    refine Or.inr ⟨rides, hchain, hvalue, fun others hothers => hleast others hothers ?_⟩
    obtain ⟨hops, hwalk⟩ := hothers.exists_walk hnet
    exact hwalk.not_isNaN hedges hnumber

theorem shortestPath_eq_route {p q : Vec3 R} {start finish : Nat}
    (hp : net.vertexId? p = some start) (hq : net.vertexId? q = some finish) :
    net.shortestPath p q = net.route start finish := by
  unfold shortestPath
  rw [hp, hq]

/-- **A search finds a cheapest chain of polylines, if there is one.** Costs are sums of the lengths
that the network has, from the first polyline on. -/
theorem Reachable.shortestPath_exact [LawfulSum R] (h : Reachable net)
    (hnumber : ∀ edge ∈ net.edges, ¬ IsNaN edge.length) {p q : Vec3 R} {start finish : Nat}
    (hp : net.vertexId? p = some start) (hq : net.vertexId? q = some finish)
    (hne : start ≠ finish) :
    ((net.shortestPath p q).value = none ↔ ¬ ∃ rides, net.Chain start rides finish) ∧
    ∀ path, (net.shortestPath p q).value = some path → ∃ rides, net.Chain start rides finish ∧
      path = Polyline.join (rides.map Ride.line) (some 0.0) ∧
      ∀ others, net.Chain start others finish → net.chainCost rides ≤ net.chainCost others := by
  have hedges : net.NumberEdges := fun id edge hedge =>
    hnumber edge (Array.mem_of_getElem? hedge)
  rw [shortestPath_eq_route hp hq]
  rcases route_value h.wellFormed hedges hne with ⟨hnone, hno⟩ | ⟨rides, hchain, hsome, hleast⟩
  · rw [hnone]
    refine ⟨iff_of_true rfl ?_, fun path hpath => by cases hpath⟩
    rintro ⟨rides, hchain⟩
    exact hno rides hchain
  · rw [hsome]
    refine ⟨iff_of_false (by simp) (not_not_intro ⟨rides, hchain⟩), fun path hpath => ?_⟩
    cases hpath
    exact ⟨rides, hchain, rfl, hleast⟩

/-- A long way between two places, two short ones over a third place, and a loop at the third. -/
def detour : Network Float :=
  let offer (net : Network Float) (points : List (Vec3 Float)) : Network Float :=
    (net.offer ⟨points, none⟩ .smart).value.1
  let long := offer {} [⟨1.0, 0.0, 0.0⟩, ⟨0.0, 0.0, 1.0⟩, ⟨0.0, 1.0, 0.0⟩]
  let first := offer long [⟨0.6, 0.8, 0.0⟩, ⟨1.0, 0.0, 0.0⟩]
  let second := offer first [⟨0.6, 0.8, 0.0⟩, ⟨0.0, 1.0, 0.0⟩]
  offer second [⟨0.6, 0.8, 0.0⟩, ⟨0.0, 0.0, 1.0⟩, ⟨0.6, 0.8, 0.0⟩]

theorem detour_shortestPath_exact :
    Reachable detour ∧ (∀ edge ∈ detour.edges, ¬ IsNaN edge.length) ∧
      ∃ rides, detour.Chain 0 rides 1 ∧
        (detour.shortestPath ⟨1.0, 0.0, 0.0⟩ ⟨0.0, 1.0, 0.0⟩).value =
          some (Polyline.join (rides.map Ride.line) (some 0.0)) ∧
        ∀ others, detour.Chain 0 others 1 → detour.chainCost rides ≤ detour.chainCost others := by
  have hreach : Reachable detour := .offer _ _ (.offer _ _ (.offer _ _ (.offer _ _ .empty)))
  have hnumber : ∀ edge ∈ detour.edges, ¬ IsNaN edge.length := by decide +kernel
  have hfound : (detour.shortestPath ⟨1.0, 0.0, 0.0⟩ ⟨0.0, 1.0, 0.0⟩).value.isSome := by
    decide +kernel
  obtain ⟨path, hpath⟩ := Option.isSome_iff_exists.mp hfound
  obtain ⟨rides, hchain, rfl, hleast⟩ := (hreach.shortestPath_exact hnumber
    (by decide +kernel : detour.vertexId? ⟨1.0, 0.0, 0.0⟩ = some 0)
    (by decide +kernel : detour.vertexId? ⟨0.0, 1.0, 0.0⟩ = some 1) (by decide)).2 path hpath
  exact ⟨hreach, hnumber, rides, hchain, hpath, hleast⟩

end TransitShapes.Network
