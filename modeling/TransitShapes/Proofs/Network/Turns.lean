import TransitShapes.Proofs.Network.Measured

/-! # A search ends, and its last hops lead home

A search goes on turn by turn. It takes one entry in each turn, and either passes over it or follows
the polylines of its vertex one after the other. What the last hops lead back to holds at every
moment of this, also between two polylines of one vertex, and whether or not lengths are numbers.
-/

namespace TransitShapes.Network

open Scalar

variable {R : Type} [Scalar R] {net : Network R}

theorem WellFormed.across_lt (h : WellFormed net) {id : Nat} {edge : Edge R}
    (hedge : net.edges[id]? = some edge) (v : Nat) : edge.across v < net.vertexCount := by
  obtain ⟨_, _, _, -, -, -, hstart, hfinish⟩ := h.exists_line hedge
  unfold Edge.across
  split
  · exact h.agree.lt_vertexCount hfinish
  · exact h.agree.lt_vertexCount hstart

theorem Walk.lt_vertexCount (hnet : WellFormed net) {a b : Nat} {hops : List Hop} {cost : R}
    (h : net.Walk a hops b cost) (ha : a < net.vertexCount) :
    b < net.vertexCount ∧ ∀ u ∈ hops.map Hop.origin, u < net.vertexCount := by
  induction h with
  | nil => exact ⟨ha, by simp⟩
  | snoc _ _ hedge ih =>
    obtain ⟨hb, horigins⟩ := ih
    refine ⟨hnet.across_lt hedge _, ?_⟩
    rw [List.map_append, List.forall_mem_append]
    exact ⟨horigins, by simpa using hb⟩

namespace Search

variable {s : Search R} {start target n : Nat}

/-! ## Turns and moments -/

/-- A search after some turns, in none of which it came to its target. -/
inductive Turns (net : Network R) (start target : Nat) : Nat → Search R → Prop where
  | begin : Turns net start target 0 (Search.at start)
  | skip {n : Nat} {s : Search R} {entry : Waiting R} {rest : List (Waiting R)} :
      Turns net start target n s → s.frontier = entry :: rest → entry.vertex ≠ target →
      s.isStale entry → Turns net start target (n + 1) (s.withFrontier rest)
  | expand {n : Nat} {s : Search R} {entry : Waiting R} {rest : List (Waiting R)} :
      Turns net start target n s → s.frontier = entry :: rest → entry.vertex ≠ target →
      ¬ s.isStale entry → Turns net start target (n + 1) ((s.withFrontier rest).expand net entry)

/-- A search between two turns, or within one after some polylines of its vertex. -/
inductive Moment (net : Network R) (start target : Nat) : Search R → Prop where
  | between {n : Nat} {s : Search R} : Turns net start target n s → Moment net start target s
  | within {n : Nat} {s : Search R} {entry : Waiting R} {rest : List (Waiting R)} {ids : List Nat} :
      Turns net start target n s → s.frontier = entry :: rest → entry.vertex ≠ target →
      ¬ s.isStale entry → ids <+: net.edgeIdsAt entry.vertex →
      Moment net start target (ids.foldl (Search.follow net entry) (s.withFrontier rest))

/-- The target is next in line, or nothing is. -/
inductive Halts (target : Nat) (s : Search R) : Outcome → Prop where
  | reached {entry : Waiting R} {rest : List (Waiting R)} :
      s.frontier = entry :: rest → entry.vertex = target → Halts target s (.reached s.last)
  | unreachable : s.frontier = [] → Halts target s .unreachable

theorem run_of_halts {outcome : Outcome} (h : s.Halts target outcome) (fuel : Nat) :
    Search.run net target (fuel + 1) s = outcome := by
  unfold Search.run
  cases h with
  | reached hfrontier htarget =>
    rw [hfrontier]
    exact if_pos htarget
  | unreachable hfrontier => rw [hfrontier]

theorem Turns.run_eq {s : Search R} (h : Turns net start target n s) (fuel : Nat) :
    Search.run net target (n + fuel) (Search.at start) = Search.run net target fuel s := by
  induction h generalizing fuel with
  | begin => rw [Nat.zero_add]
  | @skip n s entry rest _ hfrontier htarget hstale ih =>
    rw [Nat.add_assoc, Nat.add_comm 1, ih, Search.run, hfrontier]
    simp only [htarget, hstale, if_false, if_true]
    rfl
  | @expand n s entry rest _ hfrontier htarget hstale ih =>
    rw [Nat.add_assoc, Nat.add_comm 1, ih, Search.run, hfrontier]
    simp only [htarget, hstale, if_false]
    rfl

/-! ## A search ends -/

theorem Turns.invariant [LawfulSum R] (hedges : net.UnsignedEdges)
    (h : Turns net start target n s) : Invariant net start target s := by
  induction h with
  | begin => exact invariant_at net start target
  | skip _ hfrontier _ hstale ih => exact ih.skip hfrontier hstale
  | expand _ hfrontier htarget hstale ih => exact (ih.expand hedges hfrontier htarget hstale).1

theorem Turns.potential_le [LawfulSum R] (hedges : net.UnsignedEdges)
    (h : Turns net start target n s) :
    potential net s + n ≤ potential net (Search.at start) := by
  induction h with
  | begin => exact Nat.le_refl _
  | @skip n s entry rest hbefore hfrontier _ hstale ih =>
    have hinv := hbefore.invariant hedges
    have hless : potential net (s.withFrontier rest) < potential net s :=
      potential_skip hinv.toSound hfrontier hstale
    omega
  | @expand n s entry rest hbefore hfrontier htarget hstale ih =>
    have hinv := hbefore.invariant hedges
    have hless := potential_expand hinv.toSound hfrontier hstale
      (hinv.expand hedges hfrontier htarget hstale).2
    omega

theorem Turns.lt_searchFuel [LawfulSum R] (hedges : net.UnsignedEdges)
    (h : Turns net start target n s) : n < net.searchFuel := by
  have hturns := h.potential_le hedges
  have hstart := potential_at_lt_searchFuel net start
  omega

theorem Turns.halts_or_next (h : Turns net start target n s) :
    (∃ outcome, s.Halts target outcome) ∨ ∃ next, Turns net start target (n + 1) next := by
  match hfrontier : s.frontier with
  | [] => exact Or.inl ⟨_, .unreachable hfrontier⟩
  | entry :: rest =>
    by_cases htarget : entry.vertex = target
    · exact Or.inl ⟨_, .reached hfrontier htarget⟩
    · by_cases hstale : s.isStale entry
      · exact Or.inr ⟨_, h.skip hfrontier htarget hstale⟩
      · exact Or.inr ⟨_, h.expand hfrontier htarget hstale⟩

theorem exists_halts [LawfulSum R] (hedges : net.UnsignedEdges) (start target : Nat) :
    ∃ n s outcome, Turns net start target n s ∧ s.Halts target outcome := by
  -- Otherwise there would be a turn of every number.
  by_contra hnever
  have hall : ∀ n, ∃ s, Turns net start target n s := by
    intro n
    induction n with
    | zero => exact ⟨_, .begin⟩
    | succ n ih =>
      obtain ⟨s, hturns⟩ := ih
      refine hturns.halts_or_next.resolve_left ?_
      rintro ⟨outcome, hhalts⟩
      exact hnever ⟨n, s, outcome, hturns, hhalts⟩
  obtain ⟨s, hturns⟩ := hall net.searchFuel
  exact Nat.lt_irrefl _ (hturns.lt_searchFuel hedges)

theorem Turns.search_eq [LawfulSum R] (hedges : net.UnsignedEdges) {s : Search R}
    (h : Turns net start target n s) {outcome : Outcome} (hhalts : s.Halts target outcome) :
    net.search start target = outcome := by
  obtain ⟨spare, hspare⟩ := Nat.exists_eq_add_of_lt (h.lt_searchFuel hedges)
  unfold search
  rw [hspare, Nat.add_assoc, h.run_eq, run_of_halts hhalts]

/-! ## Last hops and costs -/

/-- Every vertex with a last hop has a cost. -/
def Recorded (s : Search R) : Prop :=
  ∀ (v : Nat) (hop : Hop), s.last[v]? = some hop → ∃ cost, s.costs[v]? = some cost

omit [Scalar R] in
theorem Recorded.withFrontier (h : s.Recorded) (rest : List (Waiting R)) :
    (s.withFrontier rest).Recorded := h

theorem Recorded.follow (h : s.Recorded) (entry : Waiting R) (id : Nat) :
    (Search.follow net entry s id).Recorded := by
  cases hedge : net.edges[id]? with
  | none =>
    unfold Search.follow
    rw [hedge]
    exact h
  | some edge =>
    by_cases himproves : s.improves (edge.across entry.vertex) (entry.cost + edge.length)
    · rw [follow_of_improves hedge himproves]
      intro v hop hlast
      rw [last_reach] at hlast
      rw [costs_reach]
      split at hlast
      case isTrue hv => exact ⟨_, if_pos hv⟩
      case isFalse hv =>
        rw [if_neg hv]
        exact h v hop hlast
    · rw [follow_of_not_improves hedge himproves]
      exact h

theorem Recorded.foldl_follow (h : s.Recorded) (entry : Waiting R) (ids : List Nat) :
    (ids.foldl (Search.follow net entry) s).Recorded := by
  induction ids generalizing s with
  | nil => exact h
  | cons id rest ih => exact ih (h.follow entry id)

theorem Turns.recorded (h : Turns net start target n s) : s.Recorded := by
  induction h with
  | begin =>
    intro v hop hlast
    simp [Search.at] at hlast
  | skip _ _ _ _ ih => exact ih.withFrontier _
  | expand _ _ _ _ ih => exact (ih.withFrontier _).foldl_follow _ _

theorem Moment.recorded (h : Moment net start target s) : s.Recorded := by
  cases h with
  | between hturns => exact hturns.recorded
  | within hturns => exact (hturns.recorded.withFrontier _).foldl_follow _ _

theorem Moment.sound [LawfulSum R] (hedges : net.UnsignedEdges) (h : Moment net start target s) :
    Sound net start s := by
  cases h with
  | between hturns => exact (hturns.invariant hedges).toSound
  | within hturns hfrontier _ hstale hids =>
    have hinv := (hturns.invariant hedges).toSound
    exact (Sound.foldl_follow hedges _ (fun _ hid => hids.subset hid) (hinv.withFrontier hfrontier)
      (hinv.latest hfrontier hstale)).1

/-! ## The way home -/

/-- The last hops go in no circle, and from every vertex with a cost they lead back to the start.
There are fewer of them than vertices, and walking back finds them all. -/
structure LeadsHome (net : Network R) (start : Nat) (s : Search R) : Prop where
  last_start : s.last[start]? = none
  acyclic : s.last.Acyclic
  leadsBack : ∀ v cost, s.costs[v]? = some cost → ∃ hops, s.last.LeadsBack start hops v ∧
    hops.length ≤ net.vertexCount - 1 ∧ net.reconstruct s.last v = some (net.joinHops hops)

theorem Sound.leadsHome (hnet : WellFormed net) (hstart : start < net.vertexCount)
    (h : Sound net start s) (hrecorded : s.Recorded) : LeadsHome net start s where
  last_start := h.last_start
  acyclic := by
    refine LastHops.acyclic_of_leadsBack start fun v hop hlast => ?_
    obtain ⟨cost, hcost⟩ := hrecorded v hop hlast
    obtain ⟨hops, htraced⟩ := h.traced hcost
    exact ⟨hops, htraced.leadsBack h.last_start⟩
  leadsBack v cost hcost := by
    obtain ⟨hops, htraced⟩ := h.traced hcost
    obtain ⟨hv, horigins⟩ := htraced.walk.lt_vertexCount hnet hstart
    have hback := htraced.leadsBack h.last_start
    exact ⟨hops, hback, Nat.le_sub_one_of_lt (hback.length_lt hv horigins), hback.reconstruct net⟩

end Search

/-! ## The theorem -/

/-- **A search ends, and its last hops always lead home.** It halts after fewer turns than it is
given. At every moment no last hops go in a circle, the start has none, and walking back from any
vertex with a cost comes to the start in fewer hops than there are vertices. -/
theorem Reachable.search_ends [LawfulSum R] (h : net.Reachable) {start : Nat}
    (hstart : start < net.vertexCount) (finish : Nat) :
    (∃ n s, Search.Turns net start finish n s ∧ s.Halts finish (net.search start finish)) ∧
      (∀ n s, Search.Turns net start finish n s → n < net.searchFuel) ∧
      ∀ s, Search.Moment net start finish s → Search.LeadsHome net start s := by
  have hnet := h.wellFormed
  have hedges := hnet.unsignedEdges
  refine ⟨?_, fun n s hturns => hturns.lt_searchFuel hedges,
    fun s hmoment => (hmoment.sound hedges).leadsHome hnet hstart hmoment.recorded⟩
  obtain ⟨n, s, outcome, hturns, hhalts⟩ := Search.exists_halts hedges start finish
  rw [hturns.search_eq hedges hhalts]
  exact ⟨n, s, hturns, hhalts⟩

/-- Two places that are no distance apart, two ways between them and a third place of which one has
no length, and a loop. -/
def tangle : Network Float :=
  unnamed [[⟨1.0, 0.0, 0.0⟩, ⟨2.0, 0.0, 0.0⟩], [⟨2.0, 0.0, 0.0⟩, nowhere, ⟨0.0, 1.0, 0.0⟩],
    [⟨0.0, 1.0, 0.0⟩, ⟨2.0, 0.0, 0.0⟩], [⟨2.0, 0.0, 0.0⟩, ⟨0.0, 0.0, 1.0⟩, ⟨2.0, 0.0, 0.0⟩]]

theorem tangle_search_ends : tangle.Reachable ∧ (∃ edge ∈ tangle.edges, IsNaN edge.length) ∧
    (∃ edge ∈ tangle.edges, edge.start ≠ edge.finish ∧ edge.length ≤ 0.0) ∧
    ∃ n s, n < tangle.searchFuel ∧ Search.Turns tangle 0 2 n s ∧
      s.Halts 2 (tangle.search 0 2) ∧ Search.LeadsHome tangle 0 s := by
  have hreach : tangle.Reachable := reachable_unnamed _
  have hstart : 0 < tangle.vertexCount := by decide +kernel
  obtain ⟨⟨n, s, hturns, hhalts⟩, hfuel, hhome⟩ := hreach.search_ends hstart 2
  exact ⟨hreach, by decide +kernel, by decide +kernel, n, s, hfuel n s hturns, hturns, hhalts,
    hhome s (.between hturns)⟩

end TransitShapes.Network
