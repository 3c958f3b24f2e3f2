import Mathlib.Logic.Equiv.Basic
import TransitShapes.Proofs.Collection.Search
import TransitShapes.Proofs.Network.Cost
import TransitShapes.Proofs.Network.Outcome

/-! # Networks do not depend on the order of their polylines

In another order the polylines have other numbers, and so have the vertices. Nothing else is
different: whatever a query answers in one network it answers, renumbered, in the other one. Of
several cheapest chains another one may be found, which costs the same.
-/

namespace TransitShapes

open Scalar

/-! ## The same list in another order -/

/-- Each position of a list is moved to another one, and what stands there with it. -/
def Rearranges {α : Type} (σ : Equiv.Perm Nat) (items others : List α) : Prop :=
  ∀ i, others[σ i]? = items[i]?

/-- Leaves the first position alone and moves the ones behind it. -/
def liftPerm (σ : Equiv.Perm Nat) : Equiv.Perm Nat where
  toFun i := i.casesOn 0 fun i => σ i + 1
  invFun i := i.casesOn 0 fun i => σ.symm i + 1
  left_inv i := by cases i <;> simp
  right_inv i := by cases i <;> simp

theorem Rearranges.cons {α : Type} {σ : Equiv.Perm Nat} {items others : List α}
    (h : Rearranges σ items others) (a : α) :
    Rearranges (liftPerm σ) (a :: items) (a :: others)
  | 0 => rfl
  | i + 1 => h i

theorem exists_rearranges {α : Type} {items others : List α} (h : items.Perm others) :
    ∃ σ, Rearranges σ items others := by
  induction h with
  | nil => exact ⟨Equiv.refl _, fun _ => rfl⟩
  | cons a _ ih =>
    obtain ⟨σ, hσ⟩ := ih
    exact ⟨liftPerm σ, hσ.cons a⟩
  | swap a b items =>
    refine ⟨Equiv.swap 0 1, fun i => ?_⟩
    match i with
    | 0 => simp
    | 1 => simp
    | i + 2 => rw [Equiv.swap_apply_of_ne_of_ne (by omega) (by omega)]; rfl
  | trans _ _ ih ih' =>
    obtain ⟨σ, hσ⟩ := ih
    obtain ⟨τ, hτ⟩ := ih'
    exact ⟨σ.trans τ, fun i => (hτ (σ i)).trans (hσ i)⟩

theorem perm_map_of_sorted {σ : Equiv.Perm Nat} {ids others : List Nat}
    (hids : ids.Pairwise (· < ·)) (hothers : others.Pairwise (· < ·))
    (h : ∀ id, σ id ∈ others ↔ id ∈ ids) : (ids.map σ).Perm others := by
  have hnodup : (ids.map σ).Nodup := List.Nodup.map σ.injective (hids.imp Nat.ne_of_lt)
  rw [List.perm_ext_iff_of_nodup hnodup (hothers.imp Nat.ne_of_lt)]
  intro id
  obtain ⟨id, rfl⟩ := σ.surjective id
  rw [List.mem_map_of_injective σ.injective, h]

variable {R : Type} [Scalar R]

/-! ## Searches by ends -/

namespace Collection

variable {c other : Collection R} {σ : Equiv.Perm Nat}

theorem endsInRange_renumbered (hget : ∀ id, other.get? (σ id) = c.get? id) (start finish : Vec3 R)
    (maxDistance : R) (id : Nat) :
    other.EndsInRange start finish maxDistance (σ id) ↔
      c.EndsInRange start finish maxDistance id := by
  unfold EndsInRange
  rw [hget]

theorem mem_candidates_renumbered (hc : c.WellFormed) (hother : other.WellFormed)
    (hget : ∀ id, other.get? (σ id) = c.get? id) (start finish : Vec3 R) (maxDistance : R)
    (id : Nat) : σ id ∈ (other.candidates start finish maxDistance).value ↔
      id ∈ (c.candidates start finish maxDistance).value := by
  unfold candidates
  split
  case h_1 => simp only [mem_filed, hother.mem_bucket, hc.mem_bucket, hget]
  case h_2 =>
    rw [List.mem_range, List.mem_range, ← not_iff_not, Nat.not_lt, Nat.not_lt, ← get?_eq_none_iff,
      ← get?_eq_none_iff, hget]

theorem endpointSearch_renumbered (hc : c.WellFormed) (hother : other.WellFormed)
    (hget : ∀ id, other.get? (σ id) = c.get? id) (start finish : Vec3 R) (maxDistance : R) :
    ((c.endpointSearch start finish maxDistance).value.map σ).Perm
      (other.endpointSearch start finish maxDistance).value := by
  refine perm_map_of_sorted (c.endpointSearch_sorted start finish maxDistance)
    (other.endpointSearch_sorted start finish maxDistance) fun id => ?_
  rw [mem_endpointSearch, mem_endpointSearch, mem_candidates_renumbered hc hother hget,
    endsInRange_renumbered hget]

end Collection

/-- An edge between the same vertices under other numbers. -/
def Edge.renumbered (ρ : Nat → Nat) (edge : Edge R) : Edge R :=
  ⟨ρ edge.start, ρ edge.finish, edge.length⟩

namespace Network

/-! ## Renumbered networks -/

/-- The second network is the first one with other numbers for its polylines and its vertices. Of
the places that are one vertex it may have another one there. -/
structure Renumbers (net other : Network R) (σ ρ : Nat → Nat) : Prop where
  get? : ∀ id, other.collection.get? (σ id) = net.collection.get? id
  bijOn : Set.BijOn ρ (Set.Iio net.vertexCount) (Set.Iio other.vertexCount)
  vertexId? : ∀ p, other.vertexId? p = (net.vertexId? p).map ρ
  vertex? : ∀ {v p}, net.vertex? v = some p → ∃ q, other.vertex? (ρ v) = some q ∧ q.SameKey p
  edges : ∀ id, other.edges[σ id]? = net.edges[id]?.map (Edge.renumbered ρ)
  edgeIdsAt : ∀ v < net.vertexCount, ((net.edgeIdsAt v).map σ).Perm (other.edgeIdsAt (ρ v))

/-- The number that a vertex of a network has in another one. -/
def renumbering (net other : Network R) (v : Nat) : Nat :=
  ((net.vertex? v).bind other.vertexId?).getD v

variable {net other : Network R} {σ : Equiv.Perm Nat}

theorem symm_get? (hget : ∀ id, other.collection.get? (σ id) = net.collection.get? id) (id : Nat) :
    net.collection.get? (σ.symm id) = other.collection.get? id := by
  rw [← hget, σ.apply_symm_apply]

theorem IsEnd.renumbered (hget : ∀ id, other.collection.get? (σ id) = net.collection.get? id)
    {p : Vec3 R} (h : net.IsEnd p) : other.IsEnd p := by
  obtain ⟨id, line, ends, hline, hends, hp⟩ := h
  exact ⟨σ id, line, ends, (hget id).trans hline, hends, hp⟩

section
variable (h : WellFormed net) (hother : WellFormed other)
  (hget : ∀ id, other.collection.get? (σ id) = net.collection.get? id)
include h hother hget

theorem vertexId?_of_known {p : Vec3 R} {v : Nat} (hp : net.vertexId? p = some v) :
    other.vertexId? p = some (net.renumbering other v) := by
  obtain ⟨q, hq, hkey⟩ := h.agree.vertexId?.mp hp
  obtain ⟨w, hw⟩ := hother.exists_vertexId? ((h.isEnd hq).renumbered hget)
  unfold renumbering
  rw [hq, Option.bind_some, hw, Option.getD_some]
  exact (hother.agree.same_vertex_iff hw).mpr hkey

theorem vertexId?_renumbering (p : Vec3 R) :
    other.vertexId? p = (net.vertexId? p).map (net.renumbering other) := by
  cases hp : net.vertexId? p with
  | some v => exact vertexId?_of_known h hother hget hp
  | none =>
    cases hq : other.vertexId? p with
    | none => rfl
    | some w =>
      rw [vertexId?_of_known hother h (symm_get? hget) hq] at hp
      cases hp

theorem renumbering_lt {v : Nat} (hv : v < net.vertexCount) :
    net.renumbering other v < other.vertexCount := by
  obtain ⟨p, hp⟩ := net.exists_vertex? hv
  exact hother.agree.lt_vertexCount
    (vertexId?_of_known h hother hget (h.agree.vertexId?.mpr ⟨p, hp, .refl p⟩))

theorem renumbering_renumbering {v : Nat} (hv : v < net.vertexCount) :
    other.renumbering net (net.renumbering other v) = v := by
  obtain ⟨p, hp⟩ := net.exists_vertex? hv
  have hid : net.vertexId? p = some v := h.agree.vertexId?.mpr ⟨p, hp, .refl p⟩
  have hback := vertexId?_of_known hother h (symm_get? hget)
    (vertexId?_of_known h hother hget hid)
  exact Option.some.inj (hback.symm.trans hid)

theorem bijOn_renumbering :
    Set.BijOn (net.renumbering other) (Set.Iio net.vertexCount) (Set.Iio other.vertexCount) := by
  have hinv : Set.InvOn (other.renumbering net) (net.renumbering other)
      (Set.Iio net.vertexCount) (Set.Iio other.vertexCount) :=
    ⟨fun _ hv => renumbering_renumbering h hother hget hv,
      fun _ hv => renumbering_renumbering hother h (symm_get? hget) hv⟩
  exact hinv.bijOn (fun _ hv => renumbering_lt h hother hget hv)
    (fun _ hv => renumbering_lt hother h (symm_get? hget) hv)

theorem edges_renumbering (id : Nat) :
    other.edges[σ id]? = net.edges[id]?.map (Edge.renumbered (net.renumbering other)) := by
  cases hedge : net.edges[id]? with
  | some edge =>
    obtain ⟨line, first, last, hline, hends, hlength, hstart, hfinish⟩ := h.exists_line hedge
    obtain ⟨start, finish, hown, hs, hf⟩ := hother.edge ((hget id).trans hline) hends
    have hs' := vertexId?_of_known h hother hget hstart
    have hf' := vertexId?_of_known h hother hget hfinish
    cases hs.symm.trans hs'
    cases hf.symm.trans hf'
    rw [hown, ← hlength]
    rfl
  | none =>
    rw [Array.getElem?_eq_none_iff, h.edges_size, ← Collection.get?_eq_none_iff] at hedge
    rw [Option.map_none, Array.getElem?_eq_none_iff, hother.edges_size,
      ← Collection.get?_eq_none_iff, hget, hedge]

theorem edgeIdsAt_renumbering {v : Nat} (hv : v < net.vertexCount) :
    ((net.edgeIdsAt v).map σ).Perm (other.edgeIdsAt (net.renumbering other v)) := by
  refine perm_map_of_sorted (h.edgeIdsAt_sorted v) (hother.edgeIdsAt_sorted _) fun id => ?_
  rw [h.mem_edgeIdsAt, hother.mem_edgeIdsAt, edges_renumbering h hother hget]
  have hinj := (bijOn_renumbering h hother hget).injOn
  cases hedge : net.edges[id]? with
  | none => simp
  | some edge =>
    obtain ⟨_, _, _, _, _, _, hstart, hfinish⟩ := h.exists_line hedge
    simp only [Option.map_some, Option.some.injEq, exists_eq_left', Edge.renumbered]
    rw [hinj.eq_iff (h.agree.lt_vertexCount hstart) hv,
      hinj.eq_iff (h.agree.lt_vertexCount hfinish) hv]

/-- Networks of the same polylines differ in numbers only. -/
theorem renumbers : Renumbers net other σ (net.renumbering other) where
  get? := hget
  bijOn := bijOn_renumbering h hother hget
  vertexId? := vertexId?_renumbering h hother hget
  vertex? {v p} hp := by
    have hid := vertexId?_of_known h hother hget (h.agree.vertexId?.mpr ⟨p, hp, .refl p⟩)
    exact hother.agree.vertexId?.mp hid
  edges := edges_renumbering h hother hget
  edgeIdsAt _ hv := edgeIdsAt_renumbering h hother hget hv

end

/-! ## Chains -/

theorem Chain.renumbered {ρ : Nat → Nat} (h : Renumbers net other σ ρ) {a b : Nat}
    {rides : List (Ride R)} (hchain : net.Chain a rides b) :
    ∃ others, other.Chain (ρ a) others (ρ b) ∧ other.chainCost others = net.chainCost rides := by
  induction hchain with
  | nil => exact ⟨[], .nil, rfl⟩
  | @snoc rides ride b c _ hride ih =>
    obtain ⟨others, hchain, hcost⟩ := ih
    obtain ⟨⟨line, hline, hdirection⟩, first, last, hends, hfirst, hlast⟩ := hride
    refine ⟨others ++ [⟨σ ride.id, ride.line⟩], hchain.snoc ⟨⟨line, ?_, hdirection⟩, first, last,
      hends, ?_, ?_⟩, ?_⟩
    · exact (h.get? ride.id).trans hline
    · rw [h.vertexId?, hfirst, Option.map_some]
    · rw [h.vertexId?, hlast, Option.map_some]
    · rw [chainCost_append_singleton, chainCost_append_singleton, hcost]
      congr 1
      unfold lengthOf
      rw [h.edges]
      cases net.edges[ride.id]? <;> rfl

/-! ## What queries answer -/

/-- Rides from one place to another. -/
def Links (net : Network R) (p q : Vec3 R) (rides : List (Ride R)) : Prop :=
  ∃ a b, net.vertexId? p = some a ∧ net.vertexId? q = some b ∧ net.Chain a rides b

/-- The answer to a search for a shortest path is a chain of polylines, and no chain between the two
places costs less. -/
structure Finds (net : Network R) (p q : Vec3 R) (rides : List (Ride R)) : Prop where
  links : net.Links p q rides
  value : (net.shortestPath p q).value =
    some (if rides.isEmpty then {} else Polyline.join (rides.map Ride.line) (some 0.0))
  cheapest : ∀ others, net.Links p q others → net.chainCost rides ≤ net.chainCost others

/-- The answers of two networks to the same query. They are the same polylines under other numbers,
and paths whose costs are level in the line of all values. Doubles that are level are the same. -/
structure SameAnswers (net other : Network R) (σ : Nat → Nat) : Prop where
  endpointSearch : ∀ start finish maxDistance,
    ((net.collection.endpointSearch start finish maxDistance).value.map σ).Perm
      (other.collection.endpointSearch start finish maxDistance).value
  linesBetween : ∀ start finish maxDistance,
    (net.collection.linesBetween start finish maxDistance).value.Perm
      (other.collection.linesBetween start finish maxDistance).value
  linesAt : ∀ p, (net.linesAt p).Perm (other.linesAt p)
  shortestPath : ∀ p q,
    ((net.shortestPath p q).value = none ∧ (other.shortestPath p q).value = none) ∨
      ∃ rides others, net.Finds p q rides ∧ other.Finds p q others ∧
        total (net.chainCost rides) (other.chainCost others) = .eq

theorem Chain.not_isNaN_chainCost [LawfulSum R] (h : WellFormed net) (hnumber : net.NumberEdges)
    {a b : Nat} {rides : List (Ride R)} (hchain : net.Chain a rides b) :
    ¬ IsNaN (net.chainCost rides) := by
  obtain ⟨hops, hwalk⟩ := hchain.exists_walk h
  exact hwalk.not_isNaN h.unsignedEdges hnumber

theorem finds_of_same {p q : Vec3 R} {a : Nat} [LawfulSum R] (h : WellFormed net)
    (hnumber : net.NumberEdges) (hp : net.vertexId? p = some a) (hq : net.vertexId? q = some a) :
    net.Finds p q [] where
  links := ⟨a, a, hp, hq, .nil⟩
  value := by
    rw [shortestPath_eq_route hp hq]
    unfold route
    rw [if_pos rfl]
    rfl
  cheapest := by
    rintro others ⟨_, _, _, _, hchain⟩
    exact (hchain.unsigned_chainCost h).nonneg (hchain.not_isNaN_chainCost h hnumber)

theorem WellFormed.finds [LawfulSum R] (h : WellFormed net) (hnumber : net.NumberEdges)
    (p q : Vec3 R) :
    ((net.shortestPath p q).value = none ∧ ∀ rides, ¬ net.Links p q rides) ∨
      ∃ rides, net.Finds p q rides := by
  cases hp : net.vertexId? p with
  | none =>
    refine Or.inl ⟨?_, fun rides ⟨a, _, ha, _⟩ => by rw [hp] at ha; cases ha⟩
    unfold shortestPath
    rw [hp]
  | some a =>
    cases hq : net.vertexId? q with
    | none =>
      refine Or.inl ⟨?_, fun rides ⟨_, b, _, hb, _⟩ => by rw [hq] at hb; cases hb⟩
      unfold shortestPath
      rw [hp, hq]
    | some b =>
      by_cases hab : a = b
      · subst hab
        exact Or.inr ⟨[], finds_of_same h hnumber hp hq⟩
      · have hlinks : ∀ rides, net.Links p q rides ↔ net.Chain a rides b := by
          intro rides
          unfold Links
          simp only [hp, hq, Option.some.injEq, exists_and_left, exists_eq_left']
        have hvalue := shortestPath_eq_route hp hq
        simp only [hlinks, hvalue]
        refine (route_value h hnumber hab).imp_right ?_
        rintro ⟨rides, hchain, hroute, hleast⟩
        refine ⟨rides, (hlinks rides).mpr hchain, ?_, fun others hothers =>
          hleast others ((hlinks others).mp hothers)⟩
        have hne : rides.isEmpty = false := by
          cases hchain with
          | nil => exact absurd rfl hab
          | snoc => simp
        rw [hvalue, hroute, hne]
        rfl

section
variable (h : WellFormed net) (hother : WellFormed other)
  (hget : ∀ id, other.collection.get? (σ id) = net.collection.get? id)
include hget

theorem filterMap_get?_map (ids : List Nat) :
    (ids.map σ).filterMap other.collection.get? = ids.filterMap net.collection.get? := by
  rw [List.filterMap_map]
  congr 1
  exact funext hget

include h hother

theorem linesAt_renumbered (p : Vec3 R) : (net.linesAt p).Perm (other.linesAt p) := by
  unfold linesAt
  rw [vertexId?_renumbering h hother hget]
  cases hp : net.vertexId? p with
  | none => exact .nil
  | some v =>
    have hperm := edgeIdsAt_renumbering h hother hget (h.agree.lt_vertexCount hp)
    have hlines := hperm.filterMap other.collection.get?
    rw [filterMap_get?_map hget] at hlines
    exact hlines

theorem linesBetween_renumbered (start finish : Vec3 R) (maxDistance : R) :
    (net.collection.linesBetween start finish maxDistance).value.Perm
      (other.collection.linesBetween start finish maxDistance).value := by
  have hlines := (Collection.endpointSearch_renumbered h.collection hother.collection hget start
    finish maxDistance).filterMap other.collection.get?
  rw [filterMap_get?_map hget] at hlines
  exact hlines

theorem Links.renumbered {p q : Vec3 R} {rides : List (Ride R)} (hlinks : net.Links p q rides) :
    ∃ others, other.Links p q others ∧ other.chainCost others = net.chainCost rides := by
  obtain ⟨a, b, hp, hq, hchain⟩ := hlinks
  obtain ⟨others, hothers, hcost⟩ := hchain.renumbered (renumbers h hother hget)
  exact ⟨others, ⟨_, _, vertexId?_of_known h hother hget hp, vertexId?_of_known h hother hget hq,
    hothers⟩, hcost⟩

theorem Finds.le_renumbered {p q : Vec3 R} {rides others : List (Ride R)}
    (hrides : net.Finds p q rides) (hothers : other.Finds p q others) :
    other.chainCost others ≤ net.chainCost rides := by
  obtain ⟨image, himage, hcost⟩ := hrides.links.renumbered h hother hget
  rw [← hcost]
  exact hothers.cheapest image himage

theorem shortestPath_renumbered [LawfulSum R] (hnumber : net.NumberEdges)
    (hotherNumber : other.NumberEdges) (p q : Vec3 R) :
    ((net.shortestPath p q).value = none ∧ (other.shortestPath p q).value = none) ∨
      ∃ rides others, net.Finds p q rides ∧ other.Finds p q others ∧
        total (net.chainCost rides) (other.chainCost others) = .eq := by
  have hback := symm_get? hget
  rcases h.finds hnumber p q with ⟨hnone, hno⟩ | ⟨rides, hrides⟩ <;>
    rcases hother.finds hotherNumber p q with ⟨hnone', hno'⟩ | ⟨others, hothers⟩
  · exact Or.inl ⟨hnone, hnone'⟩
  · obtain ⟨image, himage, -⟩ := hothers.links.renumbered hother h hback
    exact absurd himage (hno image)
  · obtain ⟨image, himage, -⟩ := hrides.links.renumbered h hother hget
    exact absurd himage (hno' image)
  · obtain ⟨_, _, -, -, hchain⟩ := hrides.links
    obtain ⟨_, _, -, -, hchain'⟩ := hothers.links
    exact Or.inr ⟨rides, others, hrides, hothers, total_eq_of_le
      (hchain.unsigned_chainCost h) (hchain'.unsigned_chainCost hother)
      (Finds.le_renumbered hother h hback hothers hrides)
      (Finds.le_renumbered h hother hget hrides hothers)⟩

theorem sameAnswers [LawfulSum R] (hnumber : net.NumberEdges) (hotherNumber : other.NumberEdges) :
    SameAnswers net other σ where
  endpointSearch := Collection.endpointSearch_renumbered h.collection hother.collection hget
  linesBetween := linesBetween_renumbered h hother hget
  linesAt := linesAt_renumbered h hother hget
  shortestPath := shortestPath_renumbered h hother hget hnumber hotherNumber

end

/-! ## Adding polylines one by one -/

theorem add_of_free (net : Network R) {line : Polyline R} (htwo : 2 ≤ line.size)
    (hfree : ∀ name, line.name = some name → net.collection.idOf? name = none)
    (policy : DuplicatePolicy) : ∃ next, (net.add line policy).value =
      .ok (next, net.collection.size) ∧ next.collection = net.collection.store line := by
  have hcollection := net.collection_offer line policy
  have hanswer := net.offer_answer line policy
  rw [Collection.after_of_free htwo hfree] at hcollection
  unfold Collection.answer at hanswer
  rw [Collection.admission_of_free htwo hfree] at hanswer
  refine ⟨_, ?_, hcollection⟩
  simp only [add, Logged.value_bind, Logged.value_pure, hanswer]
  rfl

theorem WellFormed.idOf?_eq_none_of_nodup (h : WellFormed net) {line : Polyline R}
    {rest : List (Polyline R)}
    (hnames : ((net.collection.lines.toList ++ line :: rest).filterMap Polyline.name).Nodup)
    {name : String} (hname : line.name = some name) : net.collection.idOf? name = none := by
  rw [h.collection.idOf?_eq_none]
  rintro ⟨id, stored, hget, hstored⟩
  rw [List.filterMap_append, List.filterMap_cons_some hname, List.nodup_append] at hnames
  have hmem : name ∈ net.collection.lines.toList.filterMap Polyline.name :=
    List.mem_filterMap.mpr ⟨stored, Array.mem_toList_iff.mpr (Array.mem_of_getElem? hget), hstored⟩
  exact hnames.2.2 name hmem name List.mem_cons_self rfl

theorem Reachable.addAll_of_nodup (h : Reachable net) (policy : DuplicatePolicy)
    {lines : List (Polyline R)} (htwo : ∀ line ∈ lines, 2 ≤ line.size)
    (hnames : ((net.collection.lines.toList ++ lines).filterMap Polyline.name).Nodup) :
    ∃ next, (net.addAll policy lines).value = .ok next ∧
      next.collection.lines.toList = net.collection.lines.toList ++ lines := by
  induction lines generalizing net with
  | nil => exact ⟨net, rfl, (List.append_nil _).symm⟩
  | cons line rest ih =>
    obtain ⟨hline, hrest⟩ := List.forall_mem_cons.mp htwo
    obtain ⟨next, hadd, hstored⟩ := net.add_of_free hline
      (fun name hname => h.wellFormed.idOf?_eq_none_of_nodup hnames hname) policy
    have hlines : next.collection.lines.toList ++ rest =
        net.collection.lines.toList ++ line :: rest := by
      rw [hstored]
      simp [Collection.store]
    rw [← hlines] at hnames ⊢
    obtain ⟨last, hlast, hall⟩ := ih (h.add hadd) hrest hnames
    refine ⟨last, ?_, hall⟩
    simp only [Network.addAll, Logged.value_bind, hadd]
    exact hlast

theorem exists_ofLines {lines : List (Polyline R)} (htwo : ∀ line ∈ lines, 2 ≤ line.size)
    (hnumber : ∀ line ∈ lines, ¬ IsNaN line.pathLength)
    (hnames : (lines.filterMap Polyline.name).Nodup) (policy : DuplicatePolicy) :
    ∃ net, (ofLines lines policy).value = .ok net ∧ WellFormed net ∧ net.NumberEdges ∧
      ∀ i, net.collection.get? i = lines[i]? := by
  obtain ⟨net, hvalue, hlines⟩ := Reachable.empty.addAll_of_nodup policy htwo hnames
  have hnet : WellFormed net := (reachable_ofLines hvalue).wellFormed
  have hget : ∀ i, net.collection.get? i = lines[i]? := by
    intro i
    rw [Collection.get?, ← Array.getElem?_toList, hlines]
    rfl
  refine ⟨net, hvalue, hnet, fun id edge hedge => ?_, hget⟩
  obtain ⟨line, _, _, hline, _, hlength, _⟩ := hnet.exists_line hedge
  rw [hlength]
  exact hnumber line (List.mem_of_getElem? ((hget id).symm.trans hline))

/-! ## The theorem -/

/-- **The order in which polylines are added does not matter.** They are all stored in the order in
which they are added. In another order each has the number of the position that it moved to, the
vertices are the same under other numbers, and every query has the same answer. -/
theorem ofLines_perm [LawfulSum R] {lines others : List (Polyline R)} (hperm : lines.Perm others)
    (htwo : ∀ line ∈ lines, 2 ≤ line.size) (hnumber : ∀ line ∈ lines, ¬ IsNaN line.pathLength)
    (hnames : (lines.filterMap Polyline.name).Nodup) (policy otherPolicy : DuplicatePolicy) :
    ∃ net other, (ofLines lines policy).value = .ok net ∧
      (ofLines others otherPolicy).value = .ok other ∧
      (∀ i, net.collection.get? i = lines[i]?) ∧ (∀ i, other.collection.get? i = others[i]?) ∧
      (∃ σ, Rearranges σ lines others) ∧
      ∀ σ, Rearranges σ lines others → ∃ ρ, Renumbers net other σ ρ ∧ SameAnswers net other σ := by
  obtain ⟨net, hvalue, hnet, hedges, hget⟩ := exists_ofLines htwo hnumber hnames policy
  obtain ⟨other, hotherValue, hother, hotherEdges, hotherGet⟩ := exists_ofLines
    (fun line hline => htwo line (hperm.mem_iff.mpr hline))
    (fun line hline => hnumber line (hperm.mem_iff.mpr hline))
    ((hperm.filterMap _).nodup_iff.mp hnames) otherPolicy
  refine ⟨net, other, hvalue, hotherValue, hget, hotherGet, exists_rearranges hperm,
    fun σ hσ => ?_⟩
  have hsame : ∀ id, other.collection.get? (σ id) = net.collection.get? id := by
    intro id
    rw [hotherGet, hget, hσ id]
  exact ⟨net.renumbering other, renumbers hnet hother hsame,
    sameAnswers hnet hother hsame hedges hotherEdges⟩

/-- Two ways between the same places, the first one in two parts. Where the parts meet, their zeros
have different signs. -/
def bypass : List (Polyline Float) :=
  [⟨[⟨1.0, 0.0, 0.0⟩, ⟨0.0, 1.0, 0.0⟩], some "First"⟩,
    ⟨[⟨-0.0, 1.0, 0.0⟩, ⟨0.0, 0.0, 1.0⟩], some "Second"⟩,
    ⟨[⟨1.0, 0.0, -0.0⟩, ⟨0.0, 0.6, 0.8⟩, ⟨0.0, 0.0, 1.0⟩], none⟩]

theorem bypass_ofLines_reverse :
    (∀ line ∈ bypass, 2 ≤ line.size) ∧ (∀ line ∈ bypass, ¬ IsNaN line.pathLength) ∧
      (bypass.filterMap Polyline.name).Nodup ∧ ∃ net other,
        (ofLines bypass .smart).value = .ok net ∧
        (ofLines bypass.reverse .reject).value = .ok other ∧
        (∀ i, net.collection.get? i = bypass[i]?) ∧
        other.collection.get? 2 = net.collection.get? 0 ∧
        (net.linesAt ⟨1.0, 0.0, 0.0⟩).Perm (other.linesAt ⟨1.0, 0.0, 0.0⟩) := by
  have htwo : ∀ line ∈ bypass, 2 ≤ line.size := by decide
  have hnumber : ∀ line ∈ bypass, ¬ IsNaN line.pathLength := by decide +kernel
  have hnames : (bypass.filterMap Polyline.name).Nodup := by decide
  obtain ⟨net, other, hnet, hother, hget, -, -, hall⟩ :=
    ofLines_perm (List.reverse_perm bypass).symm htwo hnumber hnames .smart .reject
  have hσ : Rearranges (Equiv.swap 0 2) bypass bypass.reverse := by
    intro i
    match i with
    | 0 | 1 | 2 => rfl
    | i + 3 => rw [Equiv.swap_apply_of_ne_of_ne (by omega) (by omega)]; rfl
  obtain ⟨ρ, hrenumbers, hanswers⟩ := hall _ hσ
  exact ⟨htwo, hnumber, hnames, net, other, hnet, hother, hget, hrenumbers.get? 0,
    hanswers.linesAt ⟨1.0, 0.0, 0.0⟩⟩

end Network

end TransitShapes
