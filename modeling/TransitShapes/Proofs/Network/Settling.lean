import Mathlib.Algebra.BigOperators.Group.Finset.Basic
import Mathlib.Algebra.Order.BigOperators.Group.Finset
import TransitShapes.Proofs.Network.Search

/-! # How a search settles one vertex after the other

An entry that is taken from the frontier is stale, and nothing else changes, or it settles its
vertex. Then every polyline of the vertex is followed, so that no settled vertex has an edge to one
that could be reached at a lower cost.
-/

namespace TransitShapes.Network.Search

open Scalar

variable {R : Type} [Scalar R]
variable {net : Network R} {s next : Search R} {start target : Nat}

/-! ## Following every polyline of a vertex -/

/-- The vertex across an edge is not reached at a lower cost over this edge than it was. -/
def Relaxed (net : Network R) (s : Search R) (v : Nat) (cost : R) (id : Nat) : Prop :=
  ∀ edge, net.edges[id]? = some edge →
    ∃ known, s.costs[edge.across v]? = some known ∧ ¬ cost + edge.length < known

theorem Relaxed.grows [LawfulOrder R] {v id : Nat} {cost : R} (h : Relaxed net s v cost id)
    (hgrows : Grows s next) : Relaxed net next v cost id := by
  intro edge hedge
  obtain ⟨known, hknown, hnot⟩ := h edge hedge
  obtain ⟨lower, hlower, rfl | hlt⟩ := hgrows.costs hknown
  · exact ⟨lower, hlower, hnot⟩
  · exact ⟨lower, hlower, fun hless => hnot (lt_trans hless hlt)⟩

theorem Sound.follow [LawfulSum R] (h : Sound net start s) (hedges : net.UnsignedEdges)
    {entry : Waiting R} (hentry : s.Latest entry) {id : Nat}
    (hid : id ∈ net.edgeIdsAt entry.vertex) :
    Sound net start (Search.follow net entry s id) ∧ Grows s (Search.follow net entry s id) ∧
      Relaxed net (Search.follow net entry s id) entry.vertex entry.cost id := by
  cases hedge : net.edges[id]? with
  | none =>
    have hsame : Search.follow net entry s id = s := by
      unfold Search.follow
      rw [hedge]
    rw [hsame]
    refine ⟨h, .refl s, fun edge hsome => ?_⟩
    rw [hedge] at hsome
    cases hsome
  | some edge =>
    by_cases himproves : s.improves (edge.across entry.vertex) (entry.cost + edge.length)
    · rw [follow_of_improves hedge himproves]
      have hnew := not_settled_of_improves h hedges hentry hedge himproves
      refine ⟨h.reach hedges hentry hid hedge himproves, grows_reach hnew himproves, ?_⟩
      intro own hown
      cases hedge.symm.trans hown
      exact ⟨_, by rw [costs_reach, if_pos rfl], lt_irrefl _⟩
    · rw [follow_of_not_improves hedge himproves]
      refine ⟨h, .refl s, fun own hown => ?_⟩
      cases hedge.symm.trans hown
      exact exists_of_not_improves himproves

theorem Sound.foldl_follow [LawfulSum R] (hedges : net.UnsignedEdges) {entry : Waiting R}
    (ids : List Nat) (hids : ∀ id ∈ ids, id ∈ net.edgeIdsAt entry.vertex) :
    ∀ {s : Search R}, Sound net start s → s.Latest entry →
      Sound net start (ids.foldl (Search.follow net entry) s) ∧
        Grows s (ids.foldl (Search.follow net entry) s) ∧
        ∀ id ∈ ids,
          Relaxed net (ids.foldl (Search.follow net entry) s) entry.vertex entry.cost id := by
  induction ids with
  | nil => exact fun h _ => ⟨h, .refl _, fun _ hid => absurd hid List.not_mem_nil⟩
  | cons id rest ih =>
    intro s h hentry
    obtain ⟨hid, hrest⟩ := List.forall_mem_cons.mp hids
    obtain ⟨hone, hgrows, hrelaxed⟩ := h.follow hedges hentry hid
    obtain ⟨hall, hgrows', hothers⟩ := ih hrest hone (hentry.grows hgrows)
    exact ⟨hall, hgrows.trans hgrows',
      List.forall_mem_cons.mpr ⟨hrelaxed.grows hgrows', hothers⟩⟩

/-! ## Taking an entry -/

/-- The search with other entries that wait. -/
def withFrontier (s : Search R) (rest : List (Waiting R)) : Search R := { s with frontier := rest }

theorem Sound.settled_withFrontier (h : Sound net start s) {entry : Waiting R}
    {rest : List (Waiting R)} (hfrontier : s.frontier = entry :: rest) {v : Nat} {cost : R} :
    (s.withFrontier rest).Settled v cost ↔
      s.Settled v cost ∨ s.costs[v]? = some cost ∧ entry = ⟨cost, v⟩ := by
  have hnodup := h.nodup
  rw [hfrontier, List.nodup_cons] at hnodup
  unfold Settled
  rw [hfrontier, List.mem_cons, not_or]
  constructor
  · rintro ⟨hcost, hrest⟩
    by_cases heq : entry = ⟨cost, v⟩
    · exact Or.inr ⟨hcost, heq⟩
    · exact Or.inl ⟨hcost, Ne.symm heq, hrest⟩
  · rintro (⟨hcost, -, hrest⟩ | ⟨hcost, rfl⟩)
    · exact ⟨hcost, hrest⟩
    · exact ⟨hcost, hnodup.1⟩

theorem Sound.not_lt_head [LawfulOrder R] (h : Sound net start s) {entry other : Waiting R}
    {rest : List (Waiting R)} (hfrontier : s.frontier = entry :: rest) (hother : other ∈ rest) :
    ¬ other.cost < entry.cost := fun hlt =>
  not_total_of_lt hlt <| Waiting.total_of_compare <|
    (List.pairwise_cons.mp (hfrontier ▸ h.sorted)).1 other hother

theorem Sound.withFrontier [LawfulOrder R] (h : Sound net start s) {entry : Waiting R}
    {rest : List (Waiting R)} (hfrontier : s.frontier = entry :: rest) :
    Sound net start (s.withFrontier rest) where
  costs_start := h.costs_start
  last_start := h.last_start
  sorted := (List.pairwise_cons.mp (hfrontier ▸ h.sorted)).2
  nodup := (List.nodup_cons.mp (hfrontier ▸ h.nodup)).2
  waiting other hother := h.waiting other (hfrontier ▸ List.mem_cons_of_mem entry hother)
  traced hcost := by
    obtain ⟨hops, htraced⟩ := h.traced hcost
    exact ⟨hops, htraced.keep
      (fun hu => ⟨(h.settled_withFrontier hfrontier).mpr (Or.inl hu), rfl⟩) rfl⟩
  settled_first hv other hother := by
    rcases (h.settled_withFrontier hfrontier).mp hv with hv | ⟨_, rfl⟩
    · exact h.settled_first hv other (hfrontier ▸ List.mem_cons_of_mem entry hother)
    · exact h.not_lt_head hfrontier hother

theorem isStale_iff (s : Search R) (entry : Waiting R) :
    s.isStale entry ↔ ∃ known, s.costs[entry.vertex]? = some known ∧ known < entry.cost := by
  unfold isStale
  rw [Option.any_eq_true]
  simp only [decide_eq_true_eq]

theorem Sound.settled_of_isStale [LawfulOrder R] (h : Sound net start s) {entry : Waiting R}
    {rest : List (Waiting R)} (hfrontier : s.frontier = entry :: rest) (hstale : s.isStale entry)
    {v : Nat} {cost : R} : (s.withFrontier rest).Settled v cost ↔ s.Settled v cost := by
  rw [h.settled_withFrontier hfrontier]
  refine or_iff_left ?_
  rintro ⟨hcost, rfl⟩
  obtain ⟨known, hknown, hlt⟩ := (s.isStale_iff _).mp hstale
  cases hcost.symm.trans hknown
  exact lt_irrefl _ hlt

theorem Sound.costs_of_not_isStale (h : Sound net start s) {entry : Waiting R}
    {rest : List (Waiting R)} (hfrontier : s.frontier = entry :: rest)
    (hstale : ¬ s.isStale entry) : s.costs[entry.vertex]? = some entry.cost := by
  obtain ⟨known, hknown, hle⟩ := h.waiting entry (hfrontier ▸ List.mem_cons_self)
  rcases hle with rfl | hlt
  · exact hknown
  · exact absurd ((s.isStale_iff entry).mpr ⟨known, hknown, hlt⟩) hstale

theorem Sound.latest [LawfulOrder R] (h : Sound net start s) {entry : Waiting R}
    {rest : List (Waiting R)} (hfrontier : s.frontier = entry :: rest)
    (hstale : ¬ s.isStale entry) : (s.withFrontier rest).Latest entry where
  settled := (h.settled_withFrontier hfrontier).mpr
    (Or.inr ⟨h.costs_of_not_isStale hfrontier hstale, rfl⟩)
  highest hv := by
    rcases (h.settled_withFrontier hfrontier).mp hv with hv | ⟨_, rfl⟩
    · exact h.settled_first hv entry (hfrontier ▸ List.mem_cons_self)
    · exact lt_irrefl _

/-! ## The invariant of the loop -/

/-- What holds before every turn: settled vertices have no cheaper edges left, and the target is not
among them. -/
structure Invariant (net : Network R) (start target : Nat) (s : Search R) : Prop
    extends Sound net start s where
  relaxed : ∀ {v cost}, s.Settled v cost → ∀ id ∈ net.edgeIdsAt v, Relaxed net s v cost id
  target : ∀ cost, ¬ s.Settled target cost

theorem invariant_at (net : Network R) (start target : Nat) :
    Invariant net start target (Search.at start) where
  toSound := sound_at net start
  relaxed h := (not_settled_at _ _ _ h).elim
  target := not_settled_at start target

theorem Invariant.skip [LawfulOrder R] (h : Invariant net start target s) {entry : Waiting R}
    {rest : List (Waiting R)} (hfrontier : s.frontier = entry :: rest)
    (hstale : s.isStale entry) : Invariant net start target (s.withFrontier rest) where
  toSound := h.toSound.withFrontier hfrontier
  relaxed hv := h.relaxed ((h.settled_of_isStale hfrontier hstale).mp hv)
  target cost hv := h.target cost ((h.settled_of_isStale hfrontier hstale).mp hv)

theorem Invariant.expand [LawfulSum R] (h : Invariant net start target s)
    (hedges : net.UnsignedEdges) {entry : Waiting R} {rest : List (Waiting R)}
    (hfrontier : s.frontier = entry :: rest) (htarget : entry.vertex ≠ target)
    (hstale : ¬ s.isStale entry) :
    Invariant net start target ((s.withFrontier rest).expand net entry) ∧
      Grows (s.withFrontier rest) ((s.withFrontier rest).expand net entry) := by
  obtain ⟨hsound, hgrows, hown⟩ := Sound.foldl_follow hedges (net.edgeIdsAt entry.vertex)
    (fun _ hid => hid) (h.toSound.withFrontier hfrontier) (h.latest hfrontier hstale)
  refine ⟨⟨hsound, fun {v cost} hv id hid => ?_, fun cost hv => ?_⟩, hgrows⟩
  · rcases (h.settled_withFrontier hfrontier).mp (hgrows.settled.mp hv) with hv | ⟨_, rfl⟩
    · have hbefore : Relaxed net (s.withFrontier rest) v cost id := h.relaxed hv id hid
      exact hbefore.grows hgrows
    · exact hown id hid
  · rcases (h.settled_withFrontier hfrontier).mp (hgrows.settled.mp hv) with hv | ⟨_, rfl⟩
    · exact h.target cost hv
    · exact htarget rfl

/-! ## Enough turns -/

open Classical in
/-- The polylines that are still to be followed, at all vertices that are not settled. -/
noncomputable def pending (net : Network R) (s : Search R) : Nat :=
  ∑ v ∈ Finset.range net.incident.size with ∀ cost, ¬ s.Settled v cost, (net.edgeIdsAt v).length

/-- More turns than this are never taken. -/
noncomputable def potential (net : Network R) (s : Search R) : Nat :=
  s.frontier.length + pending net s

theorem pending_congr (h : ∀ {v cost}, next.Settled v cost ↔ s.Settled v cost) :
    pending net next = pending net s := by
  classical
  unfold pending
  refine Finset.sum_congr (Finset.filter_congr fun v _ => ?_) fun _ _ => rfl
  exact forall_congr' fun cost => not_congr h

theorem pending_settle {v : Nat} {cost : R} (hbefore : ∀ k, ¬ s.Settled v k)
    (hsettled : next.Settled v cost) (hkeep : ∀ {w k}, s.Settled w k → next.Settled w k) :
    pending net next + (net.edgeIdsAt v).length ≤ pending net s := by
  classical
  unfold pending
  have hsubset : {w ∈ Finset.range net.incident.size | ∀ k, ¬ next.Settled w k} ⊆
      {w ∈ Finset.range net.incident.size | ∀ k, ¬ s.Settled w k} :=
    Finset.monotone_filter_right _ fun _ _ hw k hk => hw k (hkeep hk)
  by_cases hv : v < net.incident.size
  · have hmem : v ∈ {w ∈ Finset.range net.incident.size | ∀ k, ¬ s.Settled w k} :=
      Finset.mem_filter.mpr ⟨Finset.mem_range.mpr hv, hbefore⟩
    rw [← Finset.sum_erase_add _ _ hmem]
    refine Nat.add_le_add_right (Finset.sum_le_sum_of_subset fun w hw => ?_) _
    refine Finset.mem_erase.mpr ⟨?_, hsubset hw⟩
    rintro rfl
    exact (Finset.mem_filter.mp hw).2 cost hsettled
  · have hnone : net.edgeIdsAt v = [] := by
      unfold edgeIdsAt
      rw [Array.getD_eq_getD_getElem?, Array.getElem?_eq_none (by omega)]
      rfl
    rw [hnone, List.length_nil, Nat.add_zero]
    exact Finset.sum_le_sum_of_subset hsubset

theorem length_frontier_follow (net : Network R) (entry : Waiting R) (s : Search R) (id : Nat) :
    (Search.follow net entry s id).frontier.length ≤ s.frontier.length + 1 := by
  cases hedge : net.edges[id]? with
  | none =>
    unfold Search.follow
    rw [hedge]
    exact Nat.le_succ _
  | some edge =>
    by_cases h : s.improves (edge.across entry.vertex) (entry.cost + edge.length)
    · rw [follow_of_improves hedge h]
      exact (Ascending.insert_perm _ _).length_eq.le
    · rw [follow_of_not_improves hedge h]
      exact Nat.le_succ _

theorem length_frontier_foldl (net : Network R) (entry : Waiting R) (ids : List Nat)
    (s : Search R) :
    (ids.foldl (Search.follow net entry) s).frontier.length ≤ s.frontier.length + ids.length := by
  induction ids generalizing s with
  | nil => exact Nat.le_refl _
  | cons id rest ih =>
    have hrest := ih (Search.follow net entry s id)
    have hone := length_frontier_follow net entry s id
    rw [List.foldl_cons, List.length_cons]
    omega

theorem potential_skip [LawfulOrder R] (h : Sound net start s) {entry : Waiting R}
    {rest : List (Waiting R)} (hfrontier : s.frontier = entry :: rest)
    (hstale : s.isStale entry) : potential net (s.withFrontier rest) < potential net s := by
  unfold potential
  rw [pending_congr (h.settled_of_isStale hfrontier hstale), hfrontier, List.length_cons]
  exact Nat.add_lt_add_right (Nat.lt_succ_self _) _

theorem potential_expand [LawfulOrder R] (h : Sound net start s) {entry : Waiting R}
    {rest : List (Waiting R)} (hfrontier : s.frontier = entry :: rest)
    (hstale : ¬ s.isStale entry)
    (hgrows : Grows (s.withFrontier rest) ((s.withFrontier rest).expand net entry)) :
    potential net ((s.withFrontier rest).expand net entry) < potential net s := by
  have hlength : ((s.withFrontier rest).expand net entry).frontier.length ≤
      rest.length + (net.edgeIdsAt entry.vertex).length := length_frontier_foldl ..
  have hbefore : ∀ k, ¬ s.Settled entry.vertex k := by
    rintro k ⟨hcost, hwaits⟩
    cases hcost.symm.trans (h.costs_of_not_isStale hfrontier hstale)
    exact hwaits (hfrontier ▸ List.mem_cons_self)
  have hpending : pending net (s.withFrontier rest) + (net.edgeIdsAt entry.vertex).length ≤
      pending net s :=
    pending_settle hbefore (h.latest hfrontier hstale).settled
      fun hw => (h.settled_withFrontier hfrontier).mpr (Or.inl hw)
  unfold potential
  rw [pending_congr hgrows.settled, hfrontier, List.length_cons]
  omega

/-! ## A whole run -/

/-- How a run ends that has enough turns: with the target next in line, or with nothing in line. -/
inductive Ends (net : Network R) (start target : Nat) : Outcome → Prop where
  | reached {s : Search R} {entry : Waiting R} {rest : List (Waiting R)} :
      Invariant net start target s → s.frontier = entry :: rest → entry.vertex = target →
      Ends net start target (.reached s.last)
  | unreachable {s : Search R} :
      Invariant net start target s → s.frontier = [] → Ends net start target .unreachable

theorem Invariant.run [LawfulSum R] (hedges : net.UnsignedEdges) {fuel : Nat} {s : Search R}
    (h : Invariant net start target s) (hfuel : potential net s < fuel) :
    Ends net start target (Search.run net target fuel s) := by
  induction fuel generalizing s with
  | zero => exact absurd hfuel (Nat.not_lt_zero _)
  | succ fuel ih =>
    unfold Search.run
    split
    case h_1 hfrontier => exact .unreachable h hfrontier
    case h_2 entry rest hfrontier =>
      simp only
      split
      case isTrue htarget => exact .reached h hfrontier htarget
      case isFalse htarget =>
        split
        case isTrue hstale =>
          have hless : potential net _ < potential net s :=
            potential_skip h.toSound hfrontier hstale
          exact ih (h.skip hfrontier hstale) (Nat.lt_of_lt_of_le hless (Nat.le_of_lt_succ hfuel))
        case isFalse hstale =>
          obtain ⟨hnext, hgrows⟩ := h.expand hedges hfrontier htarget hstale
          have hless := potential_expand h.toSound hfrontier hstale hgrows
          exact ih hnext (Nat.lt_of_lt_of_le hless (Nat.le_of_lt_succ hfuel))

end TransitShapes.Network.Search
