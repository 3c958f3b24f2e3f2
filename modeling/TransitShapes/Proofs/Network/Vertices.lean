import TransitShapes.Network.Basic

/-! # The table of vertices

A network finds its vertices in three ways: by number, by place, and through the index of places.
The three tables grow together, one vertex at a time, and always say the same.
-/

namespace TransitShapes

open Scalar

variable {R : Type} [Scalar R]

/-! ## Keys -/

/-- The coordinates of two places agree, but for the sign of a zero. -/
def Vec3.SameKey (a b : Vec3 R) : Prop :=
  total (unsignedZero a.x) (unsignedZero b.x) = .eq ∧
    total (unsignedZero a.y) (unsignedZero b.y) = .eq ∧
    total (unsignedZero a.z) (unsignedZero b.z) = .eq

theorem Vec3.compareKeys_eq_iff {a b : Vec3 R} : compareKeys a b = .eq ↔ a.SameKey b := by
  unfold compareKeys SameKey
  rw [compareLex_eq_eq, compareLex_eq_eq]
  rfl

theorem Vec3.SameKey.refl (a : Vec3 R) : a.SameKey a :=
  compareKeys_eq_iff.mp Std.ReflCmp.compare_self

theorem Vec3.SameKey.symm {a b : Vec3 R} (h : a.SameKey b) : b.SameKey a :=
  compareKeys_eq_iff.mp (Std.OrientedCmp.eq_symm (compareKeys_eq_iff.mpr h))

theorem Vec3.SameKey.trans {a b c : Vec3 R} (hab : a.SameKey b) (hbc : b.SameKey c) :
    a.SameKey c :=
  compareKeys_eq_iff.mp
    (Std.TransCmp.eq_trans (compareKeys_eq_iff.mpr hab) (compareKeys_eq_iff.mpr hbc))

namespace Network

/-! ## The three tables -/

/-- What the three tables say about one another. There is a list of polylines for every vertex. -/
structure VerticesAgree (net : Network R) : Prop where
  vertexId? : ∀ {p id}, net.vertexId? p = some id ↔ ∃ q, net.vertex? id = some q ∧ q.SameKey p
  incident_size : net.incident.size = net.vertexCount
  indexed : net.index.entries.toList = net.vertices.toList.zipIdx

theorem verticesAgree_empty : VerticesAgree ({} : Network R) where
  vertexId? := by simp [Network.vertexId?, vertex?]
  incident_size := rfl
  indexed := rfl

theorem VerticesAgree.congr {net next : Network R} (h : VerticesAgree net)
    (hvertices : next.vertices = net.vertices) (hids : next.vertexIds = net.vertexIds)
    (hincident : next.incident.size = net.incident.size) (hindex : next.index = net.index) :
    VerticesAgree next where
  vertexId? {p id} := by
    unfold Network.vertexId? Network.vertex?
    rw [hvertices, hids]
    exact h.vertexId?
  incident_size := by
    rw [hincident, h.incident_size]
    unfold vertexCount
    rw [hvertices]
  indexed := by
    rw [hindex, hvertices]
    exact h.indexed

theorem lt_vertexCount_of_vertex? {net : Network R} {id : Nat} {p : Vec3 R}
    (h : net.vertex? id = some p) : id < net.vertexCount :=
  (Array.getElem?_eq_some_iff.mp h).1

theorem exists_vertex? (net : Network R) {id : Nat} (h : id < net.vertexCount) :
    ∃ p, net.vertex? id = some p :=
  ⟨_, Array.getElem?_eq_getElem h⟩

theorem VerticesAgree.lt_vertexCount {net : Network R} (h : VerticesAgree net) {p : Vec3 R}
    {id : Nat} (hid : net.vertexId? p = some id) : id < net.vertexCount := by
  obtain ⟨q, hq, _⟩ := h.vertexId?.mp hid
  exact lt_vertexCount_of_vertex? hq

theorem VerticesAgree.same_vertex_iff {net : Network R} (h : VerticesAgree net) {p q : Vec3 R}
    {id : Nat} (hp : net.vertexId? p = some id) : net.vertexId? q = some id ↔ p.SameKey q := by
  obtain ⟨own, hown, hkey⟩ := h.vertexId?.mp hp
  rw [h.vertexId?]
  constructor
  · rintro ⟨other, hother, hsame⟩
    rw [hown] at hother
    cases hother
    exact hkey.symm.trans hsame
  · intro hpq
    exact ⟨own, hown, hkey.trans hpq⟩

/-! ## Interning a place -/

theorem intern_of_known {net : Network R} {p : Vec3 R} {id : Nat} (h : net.vertexId? p = some id) :
    net.intern p = (net, id) := by
  unfold intern
  rw [h]

/-- The network with a new place as its last vertex. -/
def withVertex (net : Network R) (p : Vec3 R) : Network R :=
  { net with
    vertices := net.vertices.push p
    vertexIds := net.vertexIds.insert p net.vertexCount
    incident := net.incident.push []
    index := net.index.insert p net.vertexCount }

theorem intern_of_new {net : Network R} {p : Vec3 R} (h : net.vertexId? p = none) :
    net.intern p = (net.withVertex p, net.vertexCount) := by
  unfold intern
  rw [h]
  rfl

theorem vertex?_withVertex (net : Network R) (p : Vec3 R) (id : Nat) :
    (net.withVertex p).vertex? id = if id = net.vertexCount then some p else net.vertex? id := by
  unfold vertex? withVertex
  exact Array.getElem?_push

theorem vertexId?_withVertex (net : Network R) (p q : Vec3 R) :
    (net.withVertex p).vertexId? q =
      if Vec3.compareKeys p q = .eq then some net.vertexCount else net.vertexId? q := by
  unfold vertexId? withVertex
  exact Std.TreeMap.getElem?_insert

theorem vertexCount_withVertex (net : Network R) (p : Vec3 R) :
    (net.withVertex p).vertexCount = net.vertexCount + 1 := by
  simp [vertexCount, withVertex]

theorem edgeIdsAt_withVertex (net : Network R) (p : Vec3 R) (vertex : Nat) :
    (net.withVertex p).edgeIdsAt vertex = net.edgeIdsAt vertex := by
  unfold edgeIdsAt withVertex
  rw [Array.getD_eq_getD_getElem?, Array.getD_eq_getD_getElem?, Array.getElem?_push]
  split
  case isTrue hv => rw [Array.getElem?_eq_none (by omega)]; rfl
  case isFalse => rfl

theorem VerticesAgree.withVertex {net : Network R} (h : VerticesAgree net) {p : Vec3 R}
    (hnew : net.vertexId? p = none) : VerticesAgree (net.withVertex p) where
  vertexId? {q id} := by
    rw [vertexId?_withVertex, vertex?_withVertex]
    split
    case isTrue hkey =>
      have hpq := Vec3.compareKeys_eq_iff.mp hkey
      constructor
      · intro hid
        rw [← Option.some.inj hid, if_pos rfl]
        exact ⟨p, rfl, hpq⟩
      · rintro ⟨stored, hstored, hsame⟩
        split at hstored
        case isTrue hid => rw [hid]
        case isFalse =>
          -- An old vertex with the key of the new place contradicts `hnew`.
          have := h.vertexId?.mpr ⟨stored, hstored, hsame.trans hpq.symm⟩
          rw [hnew] at this
          cases this
    case isFalse hkey =>
      rw [h.vertexId?]
      refine exists_congr fun stored => and_congr_left fun hsame => ?_
      split
      case isTrue hid =>
        have hnone : net.vertex? id = none := by
          rw [hid]
          exact Array.getElem?_eq_none (Nat.le_refl _)
        rw [hnone]
        simp only [reduceCtorEq, Option.some.injEq, false_iff]
        rintro rfl
        exact hkey (Vec3.compareKeys_eq_iff.mpr hsame)
      case isFalse => rfl
  incident_size := by
    rw [vertexCount_withVertex, ← h.incident_size]
    simp [Network.withVertex]
  indexed := by
    simp [Network.withVertex, PointIndex.insert, vertexCount, h.indexed, List.zipIdx_append]

/-- What interning a place makes of a network: the place is a vertex, the one number and at most the
one vertex is new, and the polylines and edges are as before. -/
structure Interned (net : Network R) (p : Vec3 R) (next : Network R) (id : Nat) : Prop where
  agree : VerticesAgree next
  found : next.vertexId? p = some id
  keeps : ∀ {q k}, net.vertexId? q = some k → next.vertexId? q = some k
  vertex? : ∀ {k q}, next.vertex? k = some q → net.vertex? k = some q ∨ q = p
  edgeIdsAt : ∀ v, next.edgeIdsAt v = net.edgeIdsAt v
  edges : next.edges = net.edges
  collection : next.collection = net.collection

theorem VerticesAgree.intern {net : Network R} (h : VerticesAgree net) (p : Vec3 R) :
    Interned net p (net.intern p).1 (net.intern p).2 := by
  cases hp : net.vertexId? p with
  | some id =>
    rw [intern_of_known hp]
    exact ⟨h, hp, fun hq => hq, Or.inl, fun _ => rfl, rfl, rfl⟩
  | none =>
    rw [intern_of_new hp]
    refine ⟨h.withVertex hp, ?_, ?_, ?_, net.edgeIdsAt_withVertex p, rfl, rfl⟩
    · rw [vertexId?_withVertex, if_pos Std.ReflCmp.compare_self]
    · intro q k hq
      rw [vertexId?_withVertex, if_neg]
      · exact hq
      · intro hkey
        rw [(h.same_vertex_iff hq).mpr (Vec3.compareKeys_eq_iff.mp hkey).symm] at hp
        cases hp
    · intro k q hq
      rw [vertex?_withVertex] at hq
      split at hq
      · exact Or.inr (Option.some.inj hq).symm
      · exact Or.inl hq

end Network

end TransitShapes
