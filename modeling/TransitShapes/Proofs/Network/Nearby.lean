import TransitShapes.Proofs.Geometry.Chord
import TransitShapes.Proofs.Network.Waypoints

/-! # A lookup finds the vertices in range, the nearest first

The index finds places by the straight lines to them, and a lookup keeps and sorts them by the ways
along the globe. It loses no vertex in range by that, and it does not matter in which order the
index answers, nor which of several nearest places it prefers.
-/

namespace TransitShapes

open Scalar

/-! ## Answers of an index -/

namespace PointIndex

section
variable {R : Type} [Scalar R]

/-- An index located the entries within a radius, each of them once, in some order. -/
def Locates (index : PointIndex R) (center : Vec3 R) (squaredRadius : R)
    (located : List (Vec3 R × Nat)) : Prop :=
  located.Perm <|
    index.entries.toList.filter fun entry => center.squaredDistance entry.1 ≤ squaredRadius

/-- An index answered with an entry that none is nearer than, or has no entries. -/
def IsNearest (index : PointIndex R) (center : Vec3 R) : Option (Vec3 R × Nat) → Prop
  | none => index.entries.toList = []
  | some entry => entry ∈ index.entries.toList ∧ ∀ other ∈ index.entries.toList,
      center.squaredDistance entry.1 ≤ center.squaredDistance other.1

theorem locates_within (index : PointIndex R) (center : Vec3 R) (squaredRadius : R) :
    index.Locates center squaredRadius (index.within center squaredRadius) := .refl _

end

theorem exists_foldl_nearer (center : Vec3 EReal) (kept : Vec3 EReal × Nat)
    (entries : List (Vec3 EReal × Nat)) :
    ∃ entry, entries.foldl (nearest?.nearer center) (some kept) = some entry ∧
      entry ∈ kept :: entries ∧ ∀ other ∈ kept :: entries,
        center.squaredDistance entry.1 ≤ center.squaredDistance other.1 := by
  induction entries generalizing kept with
  | nil => exact ⟨kept, rfl, List.mem_singleton_self _, by simp⟩
  | cons next rest ih =>
    rw [List.foldl_cons, nearest?.nearer]
    split
    case isTrue hlt =>
      obtain ⟨entry, hfold, hmem, hle⟩ := ih next
      refine ⟨entry, hfold, List.mem_cons_of_mem _ hmem, List.forall_mem_cons.mpr ⟨?_, hle⟩⟩
      exact (hle next List.mem_cons_self).trans hlt.le
    case isFalse hnlt =>
      obtain ⟨entry, hfold, hmem, hle⟩ := ih kept
      have hkept := hle kept List.mem_cons_self
      refine ⟨entry, hfold, ?_, ?_⟩
      · rcases List.mem_cons.mp hmem with h | h
        · exact h ▸ List.mem_cons_self
        · exact List.mem_cons_of_mem _ (List.mem_cons_of_mem _ h)
      · refine List.forall_mem_cons.mpr ⟨hkept, List.forall_mem_cons.mpr ⟨?_, ?_⟩⟩
        · exact hkept.trans (not_lt.mp hnlt)
        · exact fun other hother => hle other (List.mem_cons_of_mem _ hother)

theorem isNearest_nearest? (index : PointIndex EReal) (center : Vec3 EReal) :
    index.IsNearest center (index.nearest? center) := by
  unfold nearest?
  cases hentries : index.entries.toList with
  | nil => exact hentries
  | cons first rest =>
    obtain ⟨entry, hfold, hnearest⟩ := exists_foldl_nearer center first rest
    have hanswer : (first :: rest).foldl (nearest?.nearer center) none = some entry := hfold
    rw [hanswer, IsNearest, hentries]
    exact hnearest

end PointIndex

namespace Network

/-! ## What a lookup makes of an answer -/

section
variable {R : Type} [Scalar R] {net : Network R}

/-- What `within` makes of the entries that its index located. -/
def lookup (net : Network R) (p : Vec3 R) (maxDistance : R) (located : List (Vec3 R × Nat)) :
    List (Nearby R) :=
  if ¬ 0.0 ≤ maxDistance then []
  else
    Ascending.sort Nearby.compare <|
      (located.filterMap fun (_, id) => (net.vertex? id).map fun q => ⟨p.distance q, id⟩).filter
        (·.distance ≤ maxDistance)

theorem within_eq_lookup (net : Network R) (p : Vec3 R) (maxDistance : R) :
    net.within p maxDistance =
      net.lookup p maxDistance (net.index.within p (squaredReach maxDistance)) := rfl

/-- What `nearestVertex?` makes of the entry that its index answered with. -/
def vertexOf (net : Network R) (nearest : Option (Vec3 R × Nat)) : Option (Vec3 R) :=
  nearest.bind fun (_, id) => net.vertex? id

theorem nearestVertex?_eq (net : Network R) (p : Vec3 R) :
    net.nearestVertex? p = net.vertexOf (net.index.nearest? p) := rfl

theorem lookup_perm {p : Vec3 R} {maxDistance : R} {located others : List (Vec3 R × Nat)}
    (h : located.Perm others) :
    (net.lookup p maxDistance located).Perm (net.lookup p maxDistance others) := by
  unfold lookup
  split
  · exact .refl _
  · exact (Ascending.sort_perm _ _).trans
      (((h.filterMap _).filter _).trans (Ascending.sort_perm _ _).symm)

theorem lookup_distinct {p : Vec3 R} {maxDistance : R} {located : List (Vec3 R × Nat)}
    (h : (located.map Prod.snd).Nodup) :
    (net.lookup p maxDistance located).Pairwise fun a b => a.vertex ≠ b.vertex := by
  unfold lookup
  split
  case isTrue => exact .nil
  case isFalse =>
    refine (Ascending.sort_perm _ _).symm.pairwise ?_ fun hne => hne.symm
    refine List.Pairwise.filter _ ((List.pairwise_map.mp h).filterMap _ ?_)
    rintro ⟨_, v⟩ ⟨_, w⟩ hne a ha b hb
    obtain ⟨_, -, rfl⟩ := Option.map_eq_some_iff.mp ha
    obtain ⟨_, -, rfl⟩ := Option.map_eq_some_iff.mp hb
    exact hne

theorem VerticesAgree.nodup_located (h : VerticesAgree net) {p : Vec3 R} {squaredRadius : R}
    {located : List (Vec3 R × Nat)} (hlocated : net.index.Locates p squaredRadius located) :
    (located.map Prod.snd).Nodup := by
  rw [(hlocated.map Prod.snd).nodup_iff, h.indexed]
  apply List.Nodup.sublist (List.filter_sublist.map Prod.snd)
  rw [List.zipIdx_map_snd]
  exact List.nodup_range'

theorem VerticesAgree.mem_entries (h : VerticesAgree net) {q : Vec3 R} {v : Nat} :
    (q, v) ∈ net.index.entries.toList ↔ net.vertex? v = some q := by
  rw [h.indexed, List.mem_zipIdx_iff_getElem?, Array.getElem?_toList]
  rfl

theorem VerticesAgree.mem_located (h : VerticesAgree net) {p q : Vec3 R} {squaredRadius : R}
    {located : List (Vec3 R × Nat)} (hlocated : net.index.Locates p squaredRadius located) {v : Nat}
    (hv : net.vertex? v = some q) (hreach : p.squaredDistance q ≤ squaredRadius) :
    (q, v) ∈ located :=
  hlocated.mem_iff.mpr <|
    List.mem_filter.mpr ⟨h.mem_entries.mpr hv, decide_eq_true_iff.mpr hreach⟩

theorem VerticesAgree.of_isNearest (h : VerticesAgree net) {p q : Vec3 R}
    {nearest : Option (Vec3 R × Nat)} (hnearest : net.index.IsNearest p nearest) {v : Nat}
    (hv : net.vertex? v = some q) : ∃ w near, net.vertex? w = some near ∧
      net.vertexOf nearest = some near ∧ p.squaredDistance near ≤ p.squaredDistance q := by
  have hq := h.mem_entries.mpr hv
  match nearest, hnearest with
  | none, hnone =>
    have hempty : net.index.entries.toList = [] := hnone
    rw [hempty] at hq
    cases hq
  | some (near, w), ⟨hmem, hle⟩ =>
    have hw := h.mem_entries.mp hmem
    exact ⟨w, near, hw, hw, hle _ hq⟩

theorem forall₂_verticesWithin (net : Network R) (p : Vec3 R) (maxDistance : R) :
    List.Forall₂ (fun found q => net.vertex? found.vertex = some q) (net.within p maxDistance)
      (net.verticesWithin p maxDistance) := by
  have hvertex : ∀ found ∈ net.within p maxDistance, ∃ q, net.vertex? found.vertex = some q := by
    intro found hfound
    obtain ⟨q, hq, -⟩ := exists_vertex_of_mem_within hfound
    exact ⟨q, hq⟩
  unfold verticesWithin
  generalize net.within p maxDistance = near at hvertex
  induction near with
  | nil => exact .nil
  | cons found rest ih =>
    obtain ⟨q, hq⟩ := hvertex found List.mem_cons_self
    simp only [List.filterMap_cons, hq]
    exact .cons hq (ih fun other hother => hvertex other (List.mem_cons_of_mem _ hother))

/-! ## The order of a list -/

instance : Std.TransCmp fun a b : Nearby R => total a.distance b.distance where
  eq_swap := Std.OrientedCmp.eq_swap
  isLE_trans := Std.TransCmp.isLE_trans

instance : Std.TransCmp fun a b : Nearby R => Ord.compare a.vertex b.vertex where
  eq_swap := Std.OrientedCmp.eq_swap
  isLE_trans := Std.TransCmp.isLE_trans

instance : Std.TransCmp (Nearby.compare : Nearby R → Nearby R → Ordering) :=
  inferInstanceAs (Std.TransCmp (compareLex (fun a b : Nearby R => total a.distance b.distance) _))

/-- Nearer, or as near and with a lower number. -/
def Nearby.Before (a b : Nearby R) : Prop :=
  a.distance < b.distance ∨ a.distance = b.distance ∧ a.vertex < b.vertex

end

variable {net : Network EReal} {p q : Vec3 EReal} {maxDistance : EReal}
  {located : List (Vec3 EReal × Nat)} {nearest : Option (Vec3 EReal × Nat)}

theorem Nearby.Before.asymm {a b : Nearby EReal} (hab : a.Before b) : ¬ b.Before a := by
  rcases hab with hlt | ⟨heq, hlt⟩
  · rintro (hgt | ⟨hsame, -⟩)
    · exact hlt.not_gt hgt
    · exact hlt.ne' hsame
  · rintro (hgt | ⟨-, hgt⟩)
    · exact hgt.ne' heq
    · exact Nat.lt_asymm hlt hgt

theorem Nearby.Before.distance_le {a b : Nearby EReal} (h : a.Before b) :
    a.distance ≤ b.distance :=
  h.elim (·.le) (·.1.le)

theorem Nearby.before_of_compare {a b : Nearby EReal} (h : (Nearby.compare a b).isLE)
    (hne : a.vertex ≠ b.vertex) : a.Before b := by
  unfold Nearby.compare at h
  cases hdistance : total a.distance b.distance with
  | lt => exact Or.inl (compare_lt_iff_lt.mp hdistance)
  | eq =>
    rw [hdistance] at h
    have hle : a.vertex ≤ b.vertex := Nat.isLE_compare.mp h
    exact Or.inr ⟨(Extended.total_eq_iff _ _).mp hdistance, Nat.lt_of_le_of_ne hle hne⟩
  | gt =>
    rw [hdistance] at h
    cases h

theorem lookup_sorted (h : (located.map Prod.snd).Nodup) :
    (net.lookup p maxDistance located).Pairwise Nearby.Before := by
  have hsorted : (net.lookup p maxDistance located).Pairwise
      fun a b => (Nearby.compare a b).isLE := by
    unfold lookup
    split
    · exact .nil
    · exact Ascending.sort_sorted _ _
  exact hsorted.imp₂ (fun _ _ => Nearby.before_of_compare) (lookup_distinct h)

theorem VerticesAgree.within_sorted (h : VerticesAgree net) (p : Vec3 EReal)
    (maxDistance : EReal) : (net.within p maxDistance).Pairwise Nearby.Before := by
  rw [within_eq_lookup]
  exact lookup_sorted (h.nodup_located (net.index.locates_within p _))

theorem VerticesAgree.lookup_eq_within (h : VerticesAgree net)
    (hlocated : net.index.Locates p (squaredReach maxDistance) located) :
    net.lookup p maxDistance located = net.within p maxDistance := by
  exact (lookup_perm hlocated).eq_of_pairwise (fun _ _ _ _ hab hba => (hab.asymm hba).elim)
    (lookup_sorted (h.nodup_located hlocated)) (h.within_sorted p maxDistance)

/-! ## Places on the globe -/

theorem norm_eq_one_of_vertex? (hunit : ∀ q ∈ net.vertices, q.norm = 1) {v : Nat}
    (hv : net.vertex? v = some q) : q.norm = 1 :=
  hunit q (Array.mem_of_getElem? hv)

theorem VerticesAgree.mem_within_iff_of_unit (h : VerticesAgree net)
    (hunit : ∀ q ∈ net.vertices, q.norm = 1) (hp : p.norm = 1) {found : Nearby EReal} :
    found ∈ net.within p maxDistance ↔ ∃ q, net.vertex? found.vertex = some q ∧
      found.distance = p.distance q ∧ found.distance ≤ maxDistance := by
  rw [h.mem_within_iff]
  constructor
  · rintro ⟨-, q, hq, hdistance, hin, -⟩
    exact ⟨q, hq, hdistance, hin⟩
  · rintro ⟨q, hq, hdistance, hin⟩
    have hle : p.distance q ≤ maxDistance := hdistance ▸ hin
    exact ⟨nonneg_of_distance_le hle, q, hq, hdistance, hin,
      Extended.squaredDistance_le_squaredReach hp (norm_eq_one_of_vertex? hunit hq) hle⟩

theorem VerticesAgree.nearest_of_unit (h : VerticesAgree net)
    (hunit : ∀ q ∈ net.vertices, q.norm = 1) (hp : p.norm = 1)
    (hnearest : net.index.IsNearest p nearest) {v : Nat} (hv : net.vertex? v = some q) :
    ∃ w near, net.vertex? w = some near ∧ net.vertexOf nearest = some near ∧
      p.distance near ≤ p.distance q := by
  obtain ⟨w, near, hw, hnear, hle⟩ := h.of_isNearest hnearest hv
  exact ⟨w, near, hw, hnear, (Extended.squaredDistance_le_iff hp
    (norm_eq_one_of_vertex? hunit hw) (norm_eq_one_of_vertex? hunit hv)).mp hle⟩

theorem VerticesAgree.within_eq_nil_iff (h : VerticesAgree net)
    (hunit : ∀ q ∈ net.vertices, q.norm = 1) (hp : p.norm = 1)
    (hnearest : net.index.IsNearest p nearest) : net.within p maxDistance = [] ↔
      ∀ near ∈ net.vertexOf nearest, maxDistance < p.distance near := by
  constructor
  · intro hnil near hnear
    obtain ⟨⟨_, v⟩, -, hv⟩ := Option.bind_eq_some_iff.mp hnear
    by_contra hin
    have hfound : ⟨p.distance near, v⟩ ∈ net.within p maxDistance :=
      (h.mem_within_iff_of_unit hunit hp).mpr ⟨near, hv, rfl, not_lt.mp hin⟩
    rw [hnil] at hfound
    cases hfound
  · intro hfar
    by_contra hne
    obtain ⟨found, hfound⟩ := List.exists_mem_of_ne_nil _ hne
    obtain ⟨q, hq, hdistance, hin⟩ := (h.mem_within_iff_of_unit hunit hp).mp hfound
    obtain ⟨_, near, -, hnear, hle⟩ := h.nearest_of_unit hunit hp hnearest hq
    rw [hdistance] at hin
    exact (hfar near hnear).not_ge (hle.trans hin)

theorem VerticesAgree.head_within (h : VerticesAgree net)
    (hunit : ∀ q ∈ net.vertices, q.norm = 1) (hp : p.norm = 1)
    (hnearest : net.index.IsNearest p nearest) {found : Nearby EReal}
    (hfound : (net.within p maxDistance).head? = some found) :
    ∃ near ∈ net.vertexOf nearest, found.distance = p.distance near := by
  have hsorted := h.within_sorted p maxDistance
  obtain ⟨rest, hrest⟩ := List.head?_eq_some_iff.mp hfound
  have hmem : found ∈ net.within p maxDistance := hrest ▸ List.mem_cons_self
  obtain ⟨q, hq, hdistance, hin⟩ := (h.mem_within_iff_of_unit hunit hp).mp hmem
  obtain ⟨w, near, hw, hnear, hle⟩ := h.nearest_of_unit hunit hp hnearest hq
  rw [← hdistance] at hle
  have hother : ⟨p.distance near, w⟩ ∈ net.within p maxDistance :=
    (h.mem_within_iff_of_unit hunit hp).mpr ⟨near, hw, rfl, hle.trans hin⟩
  refine ⟨near, hnear, le_antisymm ?_ hle⟩
  rw [hrest] at hother hsorted
  rcases List.mem_cons.mp hother with hsame | hlater
  · exact (congrArg Nearby.distance hsame).ge
  · exact ((List.pairwise_cons.mp hsorted).1 _ hlater).distance_le

/-- A nearest vertex, if there is one, is a vertex. A lookup is empty exactly if it is out of range
or there is none, and otherwise begins as near as that. -/
structure BeginsWith (net : Network EReal) (p : Vec3 EReal) (maxDistance : EReal)
    (nearest : Option (Vec3 EReal)) : Prop where
  isVertex : ∀ near ∈ nearest, ∃ v, net.vertex? v = some near
  eq_nil_iff : net.within p maxDistance = [] ↔ ∀ near ∈ nearest, maxDistance < p.distance near
  head : ∀ found ∈ (net.within p maxDistance).head?,
    ∃ near ∈ nearest, found.distance = p.distance near

theorem VerticesAgree.beginsWith (h : VerticesAgree net)
    (hunit : ∀ q ∈ net.vertices, q.norm = 1) (hp : p.norm = 1)
    (hnearest : net.index.IsNearest p nearest) (maxDistance : EReal) :
    net.BeginsWith p maxDistance (net.vertexOf nearest) where
  isVertex near hnear := by
    obtain ⟨⟨_, v⟩, -, hv⟩ := Option.bind_eq_some_iff.mp hnear
    exact ⟨v, hv⟩
  eq_nil_iff := h.within_eq_nil_iff hunit hp hnearest
  head _ := h.head_within hunit hp hnearest

/-! ## A way along the equator -/

noncomputable def equatorLine : Polyline EReal :=
  ⟨[Vec3.extend ⟨1, 0, 0⟩, Vec3.extend ⟨0, 1, 0⟩], none⟩

noncomputable def equator : Network EReal := (({} : Network EReal).offer equatorLine .smart).value.1

theorem reachable_equator : equator.Reachable := .offer _ _ .empty

theorem equator_get?_eq_some_iff {id : Nat} {line : Polyline EReal} :
    equator.collection.get? id = some line ↔ id = 0 ∧ line = equatorLine := get?_offer_first _ _

theorem equatorLine_norm_eq_one : ∀ q ∈ equatorLine.points, q.norm = 1 := by
  intro q hq
  rcases List.mem_pair.mp hq with rfl | rfl <;>
    exact (Vec3.norm_extend_eq_one_iff _).mpr (Vec3.norm_eq_one (by simp [Vec3.dot]))

theorem equator_norm_eq_one : ∀ q ∈ equator.vertices, q.norm = 1 := by
  intro q hq
  obtain ⟨v, hv⟩ := Array.mem_iff_getElem?.mp hq
  obtain ⟨id, line, ends, hget, hends, hor⟩ := reachable_equator.wellFormed.isEnd hv
  obtain ⟨-, rfl⟩ := equator_get?_eq_some_iff.mp hget
  cases hends
  exact equatorLine_norm_eq_one q (List.mem_pair.mpr hor)

theorem equator_exists_vertex : ∃ v q, equator.vertex? v = some q := by
  have hnet := reachable_equator.wellFormed
  have hend : equator.IsEnd (Vec3.extend ⟨1, 0, 0⟩) :=
    ⟨0, equatorLine, _, equator_get?_eq_some_iff.mpr ⟨rfl, rfl⟩, rfl, Or.inl rfl⟩
  obtain ⟨v, hv⟩ := hnet.exists_vertexId? hend
  obtain ⟨q, hq, -⟩ := hnet.agree.vertexId?.mp hv
  exact ⟨v, q, hq⟩

/-! ## The theorem -/

/-- **A lookup is a scan of all vertices.** Whatever the index answers, the list holds the vertices
within the distance, each once, by their distance and at one distance by their number. The places
that the index located hold all of them. The list is empty exactly if there is no nearest vertex or
it is out of range, and otherwise begins as near as that, whichever of several nearest ones the
index prefers. -/
theorem Reachable.within_exact (h : net.Reachable) (hunit : ∀ q ∈ net.vertices, q.norm = 1)
    (hp : p.norm = 1) (hlocated : net.index.Locates p (squaredReach maxDistance) located)
    (hnearest : net.index.IsNearest p nearest) :
    net.within p maxDistance = net.lookup p maxDistance located ∧
      (∀ found, found ∈ net.within p maxDistance ↔ ∃ q, net.vertex? found.vertex = some q ∧
        found.distance = p.distance q ∧ found.distance ≤ maxDistance) ∧
      (net.within p maxDistance).Pairwise Nearby.Before ∧
      List.Forall₂ (fun found q => net.vertex? found.vertex = some q) (net.within p maxDistance)
        (net.verticesWithin p maxDistance) ∧
      (∀ v q, net.vertex? v = some q → p.distance q ≤ maxDistance → (q, v) ∈ located) ∧
      net.BeginsWith p maxDistance (net.nearestVertex? p) ∧
      net.BeginsWith p maxDistance (net.vertexOf nearest) := by
  have hagree := h.wellFormed.agree
  rw [nearestVertex?_eq]
  refine ⟨(hagree.lookup_eq_within hlocated).symm,
    fun _ => hagree.mem_within_iff_of_unit hunit hp, hagree.within_sorted p maxDistance,
    net.forall₂_verticesWithin p maxDistance, ?_,
    hagree.beginsWith hunit hp (PointIndex.isNearest_nearest? net.index p) maxDistance,
    hagree.beginsWith hunit hp hnearest maxDistance⟩
  intro v q hv hin
  exact hagree.mem_located hlocated hv (Extended.squaredDistance_le_squaredReach hp
    (norm_eq_one_of_vertex? hunit hv) hin)

/-- With no bound on the distance a lookup lists all vertices, and below zero none. -/
theorem equator_within_top : equator.Reachable ∧ (∀ q ∈ equator.vertices, q.norm = 1) ∧
    (Vec3.extend ⟨1, 0, 0⟩).norm = 1 ∧ equator.within (Vec3.extend ⟨1, 0, 0⟩) ⊤ ≠ [] ∧
    (∀ v q, equator.vertex? v = some q →
      ⟨(Vec3.extend ⟨1, 0, 0⟩).distance q, v⟩ ∈ equator.within (Vec3.extend ⟨1, 0, 0⟩) ⊤) ∧
    (equator.within (Vec3.extend ⟨1, 0, 0⟩) ⊤).Pairwise Nearby.Before ∧
    (∀ found ∈ (equator.within (Vec3.extend ⟨1, 0, 0⟩) ⊤).head?,
      ∃ near ∈ equator.nearestVertex? (Vec3.extend ⟨1, 0, 0⟩),
        found.distance = (Vec3.extend ⟨1, 0, 0⟩).distance near) ∧
    equator.within (Vec3.extend ⟨1, 0, 0⟩) (-1) = [] ∧
    ∃ near, equator.nearestVertex? (Vec3.extend ⟨1, 0, 0⟩) = some near ∧
      -1 < (Vec3.extend ⟨1, 0, 0⟩).distance near := by
  have hp : (Vec3.extend ⟨1, 0, 0⟩).norm = 1 := equatorLine_norm_eq_one _ List.mem_cons_self
  have hexact := fun maxDistance => reachable_equator.within_exact equator_norm_eq_one hp
    (PointIndex.locates_within _ _ (squaredReach maxDistance)) (PointIndex.isNearest_nearest? _ _)
  obtain ⟨-, hmem, hsorted, -, -, hall, -⟩ := hexact ⊤
  obtain ⟨-, hmem', -, -, -, hnone, -⟩ := hexact (-1)
  have htop : ∀ v q, equator.vertex? v = some q → ⟨(Vec3.extend ⟨1, 0, 0⟩).distance q, v⟩ ∈
      equator.within (Vec3.extend ⟨1, 0, 0⟩) ⊤ :=
    fun v q hv => (hmem _).mpr ⟨q, hv, rfl, le_top⟩
  obtain ⟨v, q, hv⟩ := equator_exists_vertex
  have hne := List.ne_nil_of_mem (htop v q hv)
  have hnil : equator.within (Vec3.extend ⟨1, 0, 0⟩) (-1) = [] := by
    refine List.eq_nil_iff_forall_not_mem.mpr fun found hfound => ?_
    obtain ⟨q, -, hdistance, hin⟩ := (hmem' found).mp hfound
    have hnonneg := nonneg_of_distance_le (hdistance ▸ hin)
    rw [Extended.zero_eq] at hnonneg
    exact absurd hnonneg (not_le.mpr (EReal.neg_lt_zero.mpr zero_lt_one))
  obtain ⟨near, hnear, -⟩ : ∃ near, equator.nearestVertex? (Vec3.extend ⟨1, 0, 0⟩) = some near ∧
      ¬ ⊤ < (Vec3.extend ⟨1, 0, 0⟩).distance near := by
    simpa [hne] using hall.eq_nil_iff.not
  exact ⟨reachable_equator, equator_norm_eq_one, hp, hne, htop, hsorted, hall.head, hnil, near,
    hnear, hnone.eq_nil_iff.mp hnil near hnear⟩

end Network

end TransitShapes
