import TransitShapes.Proofs.Ascending
import TransitShapes.Proofs.Network.LastHops
import TransitShapes.Proofs.Network.Walk

/-! # What a search keeps

A vertex is settled once its entry was taken from the frontier. The cost of a settled vertex and the
last hop to it stay, since whatever is reached later costs no less, and the last hop to any vertex
starts at a settled one. So the last hops lead back to the start along a walk, and never in a
circle.

All of this also holds where a length is not a number, wherever its cost stands in the frontier.
-/

namespace TransitShapes.Network

open Scalar

variable {R : Type}

/-! ## Settled vertices -/

/-- A vertex that was reached at a cost, whose entry no longer waits. -/
def Search.Settled (s : Search R) (v : Nat) (cost : R) : Prop :=
  s.costs[v]? = some cost ∧ (⟨cost, v⟩ : Waiting R) ∉ s.frontier

theorem Search.settled_or_waits (s : Search R) {v : Nat} {cost : R}
    (h : s.costs[v]? = some cost) : s.Settled v cost ∨ (⟨cost, v⟩ : Waiting R) ∈ s.frontier := by
  by_cases hwaits : (⟨cost, v⟩ : Waiting R) ∈ s.frontier
  · exact Or.inr hwaits
  · exact Or.inl ⟨h, hwaits⟩

/-! ## The order of the frontier -/

variable [Scalar R]

instance : Std.TransCmp fun a b : Waiting R => total a.cost b.cost where
  eq_swap := Std.OrientedCmp.eq_swap
  isLE_trans := Std.TransCmp.isLE_trans

instance : Std.TransCmp fun a b : Waiting R => Ord.compare a.vertex b.vertex where
  eq_swap := Std.OrientedCmp.eq_swap
  isLE_trans := Std.TransCmp.isLE_trans

instance : Std.TransCmp (Waiting.compare : Waiting R → Waiting R → Ordering) :=
  inferInstanceAs (Std.TransCmp (compareLex (fun a b : Waiting R => total a.cost b.cost) _))

theorem Waiting.total_of_compare {a b : Waiting R} (h : (Waiting.compare a b).isLE) :
    (total a.cost b.cost).isLE := by
  unfold Waiting.compare at h
  cases hcost : total a.cost b.cost
  · rfl
  · rfl
  · rw [hcost] at h
    exact h

namespace Search

/-! ## Traces -/

/-- The last hops lead from the start to a vertex at a cost, over settled vertices and over none
twice. -/
inductive Traced (net : Network R) (s : Search R) (start : Nat) : List Hop → Nat → R → Prop where
  | start : Traced net s start [] start 0.0
  | hop {hops : List Hop} {u id : Nat} {cost : R} {edge : Edge R} :
      Traced net s start hops u cost → s.Settled u cost → id ∈ net.edgeIdsAt u →
      net.edges[id]? = some edge → s.last[edge.across u]? = some ⟨id, u⟩ →
      edge.across u ∉ hops.map Hop.origin → edge.across u ≠ u →
      Traced net s start (hops ++ [⟨id, u⟩]) (edge.across u) (cost + edge.length)

variable {net : Network R} {s next : Search R} {start : Nat}

theorem Traced.walk {hops : List Hop} {v : Nat} {cost : R} (h : Traced net s start hops v cost) :
    net.Walk start hops v cost := by
  induction h with
  | start => exact .nil
  | hop _ _ hid hedge _ _ _ ih => exact ih.snoc hid hedge

theorem Traced.settled_origin {hops : List Hop} {v : Nat} {cost : R}
    (h : Traced net s start hops v cost) : ∀ u ∈ hops.map Hop.origin, ∃ k, s.Settled u k := by
  induction h with
  | start => intro u hu; cases hu
  | @hop hops u id cost edge _ hsettled _ _ _ _ _ ih =>
    intro x hx
    rw [List.map_append, List.mem_append] at hx
    rcases hx with hx | hx
    · exact ih x hx
    · rw [List.map_singleton, List.mem_singleton] at hx
      exact ⟨cost, hx ▸ hsettled⟩

theorem Traced.keep {hops : List Hop} {v : Nat} {cost : R} (h : Traced net s start hops v cost)
    (hsettled : ∀ {u k}, s.Settled u k → next.Settled u k ∧ next.last[u]? = s.last[u]?)
    (hv : next.last[v]? = s.last[v]?) : Traced net next start hops v cost := by
  induction h with
  | start => exact .start
  | hop _ hu hid hedge hlast hfresh hne ih =>
    exact .hop (ih (hsettled hu).2) (hsettled hu).1 hid hedge (hv.trans hlast) hfresh hne

theorem Traced.leadsBack {hops : List Hop} {v : Nat} {cost : R}
    (h : Traced net s start hops v cost) (hstart : s.last[start]? = none) :
    s.last.LeadsBack start hops v := by
  induction h with
  | start => exact .start hstart
  | hop _ _ _ _ hlast _ _ ih => exact .hop ih hlast

/-! ## The invariant -/

/-- What a search keeps about the costs and last hops that it has. -/
structure Sound (net : Network R) (start : Nat) (s : Search R) : Prop where
  costs_start : s.costs[start]? = some 0.0
  last_start : s.last[start]? = none
  sorted : s.frontier.Pairwise fun a b => (Waiting.compare a b).isLE
  nodup : s.frontier.Nodup
  waiting : ∀ entry ∈ s.frontier, ∃ known, s.costs[entry.vertex]? = some known ∧
    (known = entry.cost ∨ known < entry.cost)
  traced : ∀ {v cost}, s.costs[v]? = some cost → ∃ hops, Traced net s start hops v cost
  settled_first : ∀ {v cost}, s.Settled v cost → ∀ entry ∈ s.frontier, ¬ entry.cost < cost

theorem not_settled_at (start v : Nat) (cost : R) : ¬ (Search.at start).Settled v cost := by
  rintro ⟨hcost, hwaits⟩
  simp only [Search.at, Std.TreeMap.getElem?_insert] at hcost
  split at hcost
  case isTrue hv =>
    cases Nat.compare_eq_eq.mp hv
    cases hcost
    exact hwaits (List.mem_singleton_self _)
  case isFalse => simp at hcost

theorem sound_at (net : Network R) (start : Nat) : Sound net start (Search.at start) where
  costs_start := by simp [Search.at]
  last_start := by simp [Search.at]
  sorted := List.pairwise_singleton ..
  nodup := List.nodup_singleton _
  waiting := by simp [Search.at]
  traced {v cost} h := by
    simp only [Search.at, Std.TreeMap.getElem?_insert] at h
    split at h
    case isTrue hv =>
      cases Nat.compare_eq_eq.mp hv
      cases h
      exact ⟨[], .start⟩
    case isFalse => simp at h
  settled_first h := (not_settled_at _ _ _ h).elim

theorem Sound.unsigned_cost [LawfulSign R] (h : Sound net start s) (hedges : net.UnsignedEdges)
    {v : Nat} {cost : R} (hcost : s.costs[v]? = some cost) : Unsigned cost := by
  obtain ⟨hops, htraced⟩ := h.traced hcost
  exact htraced.walk.unsigned hedges

/-! ## What one hop changes -/

/-- What later states of a search keep of an earlier one. -/
structure Grows (s next : Search R) : Prop where
  settled : ∀ {v : Nat} {cost : R}, next.Settled v cost ↔ s.Settled v cost
  last : ∀ {v : Nat} {cost : R}, s.Settled v cost → next.last[v]? = s.last[v]?
  costs : ∀ {v : Nat} {cost : R}, s.costs[v]? = some cost →
    ∃ lower, next.costs[v]? = some lower ∧ (lower = cost ∨ lower < cost)

theorem Grows.refl (s : Search R) : Grows s s :=
  ⟨Iff.rfl, fun _ => rfl, fun h => ⟨_, h, Or.inl rfl⟩⟩

theorem Grows.trans [LawfulOrder R] {a b c : Search R} (hab : Grows a b) (hbc : Grows b c) :
    Grows a c where
  settled := hbc.settled.trans hab.settled
  last h := (hbc.last (hab.settled.mpr h)).trans (hab.last h)
  costs h := by
    obtain ⟨mid, hmid, hle⟩ := hab.costs h
    obtain ⟨low, hlow, hle'⟩ := hbc.costs hmid
    refine ⟨low, hlow, ?_⟩
    rcases hle with rfl | hlt
    · exact hle'
    · rcases hle' with rfl | hlt'
      · exact Or.inr hlt
      · exact Or.inr (lt_trans hlt' hlt)

/-- The search after a vertex was reached at a lower cost than before. -/
def reach (s : Search R) (w : Nat) (cost : R) (hop : Hop) : Search R where
  costs := s.costs.insert w cost
  last := s.last.insert w hop
  frontier := Ascending.insert Waiting.compare ⟨cost, w⟩ s.frontier

theorem follow_of_improves {entry : Waiting R} {id : Nat} {edge : Edge R}
    (hedge : net.edges[id]? = some edge)
    (h : s.improves (edge.across entry.vertex) (entry.cost + edge.length)) :
    Search.follow net entry s id =
      s.reach (edge.across entry.vertex) (entry.cost + edge.length) ⟨id, entry.vertex⟩ := by
  unfold Search.follow
  rw [hedge]
  exact if_pos h

theorem follow_of_not_improves {entry : Waiting R} {id : Nat} {edge : Edge R}
    (hedge : net.edges[id]? = some edge)
    (h : ¬ s.improves (edge.across entry.vertex) (entry.cost + edge.length)) :
    Search.follow net entry s id = s := by
  unfold Search.follow
  rw [hedge]
  exact if_neg h

theorem lt_of_improves {w : Nat} {cost known : R} (h : s.improves w cost)
    (hknown : s.costs[w]? = some known) : cost < known := by
  unfold improves at h
  rw [hknown] at h
  simpa using h

theorem exists_of_not_improves {w : Nat} {cost : R} (h : ¬ s.improves w cost) :
    ∃ known, s.costs[w]? = some known ∧ ¬ cost < known := by
  unfold improves at h
  cases hknown : s.costs[w]? with
  | none => simp [hknown] at h
  | some known => exact ⟨known, rfl, by simpa [hknown] using h⟩

theorem costs_reach (s : Search R) (w : Nat) (cost : R) (hop : Hop) (v : Nat) :
    (s.reach w cost hop).costs[v]? = if w = v then some cost else s.costs[v]? := by
  unfold reach
  rw [Std.TreeMap.getElem?_insert]
  simp only [Nat.compare_eq_eq]

theorem last_reach (s : Search R) (w : Nat) (cost : R) (hop : Hop) (v : Nat) :
    (s.reach w cost hop).last[v]? = if w = v then some hop else s.last[v]? := by
  unfold reach
  rw [Std.TreeMap.getElem?_insert]
  simp only [Nat.compare_eq_eq]

theorem mem_frontier_reach {w : Nat} {cost : R} {hop : Hop} {entry : Waiting R} :
    entry ∈ (s.reach w cost hop).frontier ↔ entry = ⟨cost, w⟩ ∨ entry ∈ s.frontier :=
  (Ascending.insert_perm _ _).mem_iff.trans List.mem_cons

theorem settled_reach {w : Nat} {cost : R} {hop : Hop} (hw : ∀ k, ¬ s.Settled w k) {v : Nat}
    {k : R} : (s.reach w cost hop).Settled v k ↔ s.Settled v k := by
  unfold Settled
  rw [costs_reach, mem_frontier_reach, not_or]
  split
  case isTrue hv =>
    subst hv
    refine ⟨fun h => ?_, fun h => absurd h (hw k)⟩
    cases h.1
    exact absurd rfl h.2.1
  case isFalse hv =>
    refine and_congr_right fun _ => and_iff_right ?_
    intro heq
    cases heq
    exact hv rfl

theorem grows_reach {w : Nat} {cost : R} {hop : Hop} (hw : ∀ k, ¬ s.Settled w k)
    (hlow : s.improves w cost) : Grows s (s.reach w cost hop) where
  settled := settled_reach hw
  last {v k} hv := by
    rw [last_reach, if_neg]
    rintro rfl
    exact hw k hv
  costs {v k} hv := by
    rw [costs_reach]
    split
    case isTrue hwv =>
      subst hwv
      exact ⟨cost, rfl, Or.inr (lt_of_improves hlow hv)⟩
    case isFalse => exact ⟨k, hv, Or.inl rfl⟩

/-- The vertex of an entry was settled at the cost of the entry, and no vertex at a higher one. -/
structure Latest (s : Search R) (entry : Waiting R) : Prop where
  settled : s.Settled entry.vertex entry.cost
  highest : ∀ {v cost}, s.Settled v cost → ¬ entry.cost < cost

theorem Latest.grows {entry : Waiting R} (h : s.Latest entry) (hgrows : Grows s next) :
    next.Latest entry :=
  ⟨hgrows.settled.mpr h.settled, fun hv => h.highest (hgrows.settled.mp hv)⟩

theorem Latest.not_lt [LawfulSum R] {entry : Waiting R} (hentry : s.Latest entry)
    (h : Sound net start s) (hedges : net.UnsignedEdges) {id : Nat} {edge : Edge R}
    (hedge : net.edges[id]? = some edge) {v : Nat} {k : R} (hv : s.Settled v k) :
    ¬ entry.cost + edge.length < k := by
  intro hlt
  have hcost := h.unsigned_cost hedges hentry.settled.1
  have hlength := hedges _ _ hedge
  have hsum : ¬ IsNaN (entry.cost + edge.length) := (LawfulOrder.isNumber_of_le (le_of_lt hlt)).1
  rw [LawfulSum.isNaN_add hcost hlength, not_or] at hsum
  exact hentry.highest hv (lt_of_le_of_lt (LawfulSum.le_sum hcost hlength hsum.1 hsum.2) hlt)

theorem not_settled_of_improves [LawfulSum R] (h : Sound net start s)
    (hedges : net.UnsignedEdges) {entry : Waiting R} {id : Nat} {edge : Edge R}
    (hentry : s.Latest entry) (hedge : net.edges[id]? = some edge) {w : Nat}
    (himproves : s.improves w (entry.cost + edge.length)) (k : R) : ¬ s.Settled w k :=
  fun hw => hentry.not_lt h hedges hedge hw (lt_of_improves himproves hw.1)

theorem Sound.lt_of_waits [LawfulOrder R] (h : Sound net start s) {w : Nat} {cost : R}
    (himproves : s.improves w cost) :
    ∀ entry ∈ s.frontier, entry.vertex = w → cost < entry.cost := by
  rintro entry hentry rfl
  obtain ⟨known, hknown, rfl | hlt⟩ := h.waiting entry hentry
  · exact lt_of_improves himproves hknown
  · exact lt_trans (lt_of_improves himproves hknown) hlt

theorem Sound.ne_start [LawfulSign R] (h : Sound net start s) {w : Nat} {cost : R}
    (hcost : Unsigned cost) (himproves : s.improves w cost) : w ≠ start := by
  rintro rfl
  have ⟨hle, hnot⟩ := LawfulOrder.lt_iff.mp (lt_of_improves himproves h.costs_start)
  exact hnot (hcost.nonneg (LawfulOrder.isNumber_of_le hle).1)

theorem Traced.reach {hops : List Hop} {v w : Nat} {k cost : R} {hop : Hop}
    (h : Traced net s start hops v k) (hgrows : Grows s (s.reach w cost hop)) (hv : v ≠ w) :
    Traced net (s.reach w cost hop) start hops v k := by
  refine h.keep (fun hu => ⟨hgrows.settled.mpr hu, hgrows.last hu⟩) ?_
  rw [last_reach, if_neg hv.symm]

theorem Sound.exists_traced_reach (h : Sound net start s) {entry : Waiting R} {id : Nat}
    {edge : Edge R} (hentry : s.Latest entry) (hid : id ∈ net.edgeIdsAt entry.vertex)
    (hedge : net.edges[id]? = some edge) (hnew : ∀ k, ¬ s.Settled (edge.across entry.vertex) k)
    (hgrows : Grows s (s.reach (edge.across entry.vertex) (entry.cost + edge.length)
      ⟨id, entry.vertex⟩)) :
    ∃ hops, Traced net
      (s.reach (edge.across entry.vertex) (entry.cost + edge.length) ⟨id, entry.vertex⟩) start hops
      (edge.across entry.vertex) (entry.cost + edge.length) := by
  obtain ⟨hops, htraced⟩ := h.traced hentry.settled.1
  have hback : entry.vertex ≠ edge.across entry.vertex :=
    fun hv => hnew entry.cost (hv ▸ hentry.settled)
  refine ⟨hops ++ [⟨id, entry.vertex⟩], .hop (htraced.reach hgrows hback)
    (hgrows.settled.mpr hentry.settled) hid hedge ?_ ?_ hback.symm⟩
  · rw [last_reach, if_pos rfl]
  · intro hmem
    obtain ⟨k, hk⟩ := htraced.settled_origin _ hmem
    exact hnew k hk

theorem Sound.reach [LawfulSum R] (h : Sound net start s) (hedges : net.UnsignedEdges)
    {entry : Waiting R} {id : Nat} {edge : Edge R} (hentry : s.Latest entry)
    (hid : id ∈ net.edgeIdsAt entry.vertex) (hedge : net.edges[id]? = some edge)
    (himproves : s.improves (edge.across entry.vertex) (entry.cost + edge.length)) :
    Sound net start
      (s.reach (edge.across entry.vertex) (entry.cost + edge.length) ⟨id, entry.vertex⟩) := by
  have hnew := not_settled_of_improves h hedges hentry hedge himproves
  have hunsigned := h.unsigned_cost hedges hentry.settled.1
  have hlength := hedges id edge hedge
  have hgrows : Grows s (s.reach _ _ ⟨id, entry.vertex⟩) := grows_reach hnew himproves
  have hstart := h.ne_start (LawfulSign.unsigned_add hunsigned hlength) himproves
  have hwaits := h.lt_of_waits himproves
  constructor
  case costs_start => rw [costs_reach, if_neg hstart, h.costs_start]
  case last_start => rw [last_reach, if_neg hstart, h.last_start]
  case sorted => exact Ascending.insert_sorted h.sorted
  case nodup =>
    refine (Ascending.insert_perm _ _).nodup_iff.mpr (List.nodup_cons.mpr ⟨fun hmem => ?_, h.nodup⟩)
    exact lt_irrefl _ (hwaits _ hmem rfl)
  case waiting =>
    intro other hother
    rw [costs_reach]
    rcases mem_frontier_reach.mp hother with rfl | hother
    · exact ⟨_, if_pos rfl, Or.inl rfl⟩
    · split
      case isTrue hv => exact ⟨_, rfl, Or.inr (hwaits other hother hv.symm)⟩
      case isFalse => exact h.waiting other hother
  case traced =>
    intro v k hk
    rw [costs_reach] at hk
    split at hk
    case isTrue hv =>
      cases hk
      cases hv
      exact h.exists_traced_reach hentry hid hedge hnew hgrows
    case isFalse hv =>
      obtain ⟨hops, htraced⟩ := h.traced hk
      exact ⟨hops, htraced.reach hgrows (Ne.symm hv)⟩
  case settled_first =>
    intro v k hv other hother
    rw [settled_reach hnew] at hv
    rcases mem_frontier_reach.mp hother with rfl | hother
    · exact hentry.not_lt h hedges hedge hv
    · exact h.settled_first hv other hother

end Search

end TransitShapes.Network
