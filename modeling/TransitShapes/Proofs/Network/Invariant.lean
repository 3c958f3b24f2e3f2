import TransitShapes.Proofs.Collection.Invariant
import TransitShapes.Proofs.Network.Vertices
import TransitShapes.Proofs.Polyline.Length

/-! # What every network keeps

Its parts grow in step although they are changed one after the other: the collection first, then the
vertices, the lists of polylines at each vertex, and the edges.
-/

namespace TransitShapes

open Scalar

variable {R : Type} [Scalar R]

namespace Network

/-! ## The lists of polylines -/

theorem edgeIdsAt_attach (net : Network R) {vertex : Nat} (h : vertex < net.incident.size)
    (id v : Nat) :
    (net.attach vertex id).edgeIdsAt v = net.edgeIdsAt v ++ if vertex = v then [id] else [] := by
  simp only [edgeIdsAt, attach, Array.getD_eq_getD_getElem?, Array.getElem?_setIfInBounds]
  split
  case isTrue hv =>
    subst hv
    simp [h]
  case isFalse => simp

theorem edgeIdsAt_attachEnds (net : Network R) {start finish : Nat}
    (hstart : start < net.incident.size) (hfinish : finish < net.incident.size) (id v : Nat) :
    (net.attachEnds start finish id).edgeIdsAt v =
      net.edgeIdsAt v ++ if start = v ∨ finish = v then [id] else [] := by
  unfold attachEnds
  split
  case isTrue hsame => simp only [edgeIdsAt_attach net hstart, hsame, or_self]
  case isFalse hother =>
    rw [edgeIdsAt_attach _ (by simpa [attach] using hfinish), edgeIdsAt_attach net hstart,
      List.append_assoc]
    by_cases hv : start = v
    · simp [hv, show ¬ finish = v from fun hf => hother (hf.trans hv.symm)]
    · simp [hv]

theorem incident_size_attachEnds (net : Network R) (start finish id : Nat) :
    (net.attachEnds start finish id).incident.size = net.incident.size := by
  unfold attachEnds
  split <;> simp [attach]

theorem attachEnds_eq (net : Network R) (start finish id : Nat) :
    net.attachEnds start finish id =
      { net with incident := (net.attachEnds start finish id).incident } := by
  unfold attachEnds
  split <;> rfl

/-! ## One more edge -/

/-- What one more edge makes of a network: its ends are vertices, two vertices at most are new, and
the edge is the last one of all and of both its vertices. -/
structure Connected (net : Network R) (id : Nat) (ends : Vec3 R × Vec3 R) (edge : Edge R)
    (next : Network R) : Prop where
  agree : VerticesAgree next
  start : next.vertexId? ends.1 = some edge.start
  finish : next.vertexId? ends.2 = some edge.finish
  keeps : ∀ {q k}, net.vertexId? q = some k → next.vertexId? q = some k
  vertex? : ∀ {k q}, next.vertex? k = some q → net.vertex? k = some q ∨ q = ends.1 ∨ q = ends.2
  edgeIdsAt : ∀ v, next.edgeIdsAt v =
    net.edgeIdsAt v ++ if edge.start = v ∨ edge.finish = v then [id] else []
  edges : next.edges = net.edges.push edge
  collection : next.collection = net.collection

theorem VerticesAgree.connect {net : Network R} (h : VerticesAgree net) (id : Nat)
    (ends : Vec3 R × Vec3 R) (length : R) :
    ∃ start finish, Connected net id ends ⟨start, finish, length⟩ (net.connect id ends length) := by
  have ha := h.intern ends.1
  have hb := ha.agree.intern ends.2
  generalize hstart : (net.intern ends.1).2 = start at ha
  generalize hfinish : ((net.intern ends.1).1.intern ends.2).2 = finish at hb
  generalize hboth : ((net.intern ends.1).1.intern ends.2).1 = both at hb
  have hnext : net.connect id ends length =
      { both with
        incident := (both.attachEnds start finish id).incident
        edges := both.edges.push ⟨start, finish, length⟩ } := by
    simp only [Network.connect, hstart, hfinish, hboth]
    rw [attachEnds_eq both start finish id]
  have hstartLt : start < both.incident.size := by
    rw [hb.agree.incident_size]
    exact hb.agree.lt_vertexCount (hb.keeps ha.found)
  have hfinishLt : finish < both.incident.size := by
    rw [hb.agree.incident_size]
    exact hb.agree.lt_vertexCount hb.found
  refine ⟨start, finish, ?_⟩
  rw [hnext]
  constructor
  case agree => exact hb.agree.congr rfl rfl (incident_size_attachEnds ..) rfl
  case start => exact hb.keeps ha.found
  case finish => exact hb.found
  case keeps => exact fun hq => hb.keeps (ha.keeps hq)
  case vertex? =>
    intro k q hq
    rcases hb.vertex? hq with hq | hq
    · exact (ha.vertex? hq).imp_right Or.inl
    · exact Or.inr (Or.inr hq)
  case edgeIdsAt =>
    intro v
    rw [← ha.edgeIdsAt v, ← hb.edgeIdsAt v, ← edgeIdsAt_attachEnds both hstartLt hfinishLt]
    rfl
  case edges => rw [hb.edges, ha.edges]
  case collection => exact hb.collection.trans ha.collection

/-! ## The invariant -/

/-- Whether the edge of a polyline starts or ends at a vertex. -/
def touches (net : Network R) (vertex id : Nat) : Bool :=
  net.edges[id]?.any fun edge => edge.start = vertex ∨ edge.finish = vertex

/-- A place is the first or the last point of a stored polyline. -/
def IsEnd (net : Network R) (p : Vec3 R) : Prop :=
  ∃ id line ends, net.collection.get? id = some line ∧ line.ends? = some ends ∧
    (p = ends.1 ∨ p = ends.2)

/-- What the parts of a network say about its polylines. -/
structure WellFormed (net : Network R) : Prop where
  collection : net.collection.WellFormed
  agree : VerticesAgree net
  edges_size : net.edges.size = net.collection.size
  edge : ∀ {id line ends}, net.collection.get? id = some line → line.ends? = some ends →
    ∃ start finish, net.edges[id]? = some ⟨start, finish, line.pathLength⟩ ∧
      net.vertexId? ends.1 = some start ∧ net.vertexId? ends.2 = some finish
  isEnd : ∀ {v p}, net.vertex? v = some p → net.IsEnd p
  edgeIdsAt : ∀ v, net.edgeIdsAt v = (List.range net.edges.size).filter (net.touches v)

theorem wellFormed_empty : WellFormed ({} : Network R) where
  collection := Collection.wellFormed_empty
  agree := verticesAgree_empty
  edges_size := rfl
  edge h := by simp [Collection.get?] at h
  isEnd h := by simp [vertex?] at h
  edgeIdsAt v := by simp [Network.edgeIdsAt]

theorem touches_iff (net : Network R) (vertex id : Nat) :
    net.touches vertex id ↔ ∃ edge, net.edges[id]? = some edge ∧
      (edge.start = vertex ∨ edge.finish = vertex) := by
  unfold touches
  rw [Option.any_eq_true]
  simp only [decide_eq_true_eq]

theorem WellFormed.mem_edgeIdsAt {net : Network R} (h : WellFormed net) {vertex id : Nat} :
    id ∈ net.edgeIdsAt vertex ↔ ∃ edge, net.edges[id]? = some edge ∧
      (edge.start = vertex ∨ edge.finish = vertex) := by
  rw [h.edgeIdsAt, List.mem_filter, List.mem_range, touches_iff]
  refine and_iff_right_of_imp ?_
  rintro ⟨_, hedge, _⟩
  exact (Array.getElem?_eq_some_iff.mp hedge).1

theorem WellFormed.edgeIdsAt_sorted {net : Network R} (h : WellFormed net) (vertex : Nat) :
    (net.edgeIdsAt vertex).Pairwise (· < ·) := by
  rw [h.edgeIdsAt]
  exact List.pairwise_lt_range.filter _

theorem WellFormed.exists_vertexId? {net : Network R} (h : WellFormed net) {p : Vec3 R}
    (hp : net.IsEnd p) : ∃ v, net.vertexId? p = some v := by
  obtain ⟨id, line, ends, hget, hends, hor⟩ := hp
  obtain ⟨start, finish, _, hstart, hfinish⟩ := h.edge hget hends
  rcases hor with rfl | rfl
  · exact ⟨start, hstart⟩
  · exact ⟨finish, hfinish⟩

/-- The network whose collection has one more polyline and whose other parts do not know it. -/
def withLine (net : Network R) (line : Polyline R) : Network R :=
  { net with collection := net.collection.store line }

@[simp] theorem edges_withLine (net : Network R) (line : Polyline R) :
    (net.withLine line).edges = net.edges := rfl

theorem IsEnd.withLine {net : Network R} {p : Vec3 R} (h : net.IsEnd p) (line : Polyline R) :
    (net.withLine line).IsEnd p := by
  obtain ⟨id, stored, ends, hget, hends, hp⟩ := h
  refine ⟨id, stored, ends, ?_, hends, hp⟩
  have := Collection.lt_size_of_get? hget
  exact (Collection.get?_store_of_ne _ _ (by omega)).trans hget

theorem WellFormed.connect {net : Network R} (h : WellFormed net) {line : Polyline R}
    {ends : Vec3 R × Vec3 R} (hcollection : (net.collection.store line).WellFormed)
    (hends : line.ends? = some ends) :
    WellFormed ((net.withLine line).connect net.collection.size ends line.pathLength) := by
  have hagree : VerticesAgree (net.withLine line) := h.agree.congr rfl rfl rfl rfl
  obtain ⟨start, finish, hnext⟩ := hagree.connect net.collection.size ends line.pathLength
  generalize (net.withLine line).connect net.collection.size ends line.pathLength = next at hnext
  have hstored : next.collection = net.collection.store line := hnext.collection
  have hedges : next.edges = net.edges.push ⟨start, finish, line.pathLength⟩ := hnext.edges
  constructor
  case collection => rw [hstored]; exact hcollection
  case agree => exact hnext.agree
  case edges_size => rw [hedges, hstored, Array.size_push, h.edges_size, Collection.size_store]
  case edge =>
    intro id stored own hget hown
    rw [hstored, Collection.get?_store] at hget
    rw [hedges, Array.getElem?_push, h.edges_size]
    split at hget
    case isTrue hid =>
      cases hget
      rw [hends] at hown
      cases hown
      exact ⟨start, finish, by rw [if_pos hid], hnext.start, hnext.finish⟩
    case isFalse hid =>
      obtain ⟨s, f, hedge, hs, hf⟩ := h.edge hget hown
      exact ⟨s, f, by rw [if_neg hid]; exact hedge, hnext.keeps hs, hnext.keeps hf⟩
  case isEnd =>
    intro v p hp
    suffices (net.withLine line).IsEnd p by
      unfold IsEnd at this ⊢
      rw [hnext.collection]
      exact this
    rcases hnext.vertex? hp with hp | hp
    · exact (h.isEnd hp).withLine line
    · exact ⟨net.collection.size, line, ends, by simp [Network.withLine, Collection.get?_store],
        hends, hp⟩
  case edgeIdsAt =>
    intro v
    rw [hnext.edgeIdsAt, hedges, Array.size_push, List.range_succ, List.filter_append]
    congr 1
    · refine (h.edgeIdsAt v).trans (List.filter_congr fun id hid => ?_)
      have hlt := List.mem_range.mp hid
      unfold touches
      rw [hedges, Array.getElem?_push, if_neg (by omega)]
    · have hself : next.touches v net.collection.size ↔ start = v ∨ finish = v := by
        unfold touches
        rw [hedges, Array.getElem?_push, h.edges_size, if_pos rfl]
        simp
      simp only [List.filter_cons, List.filter_nil, hself, h.edges_size]

/-! ## Every run of adds -/

/-- The networks that offers make from the empty one, whether or not they are taken. -/
inductive Reachable : Network R → Prop where
  | empty : Reachable {}
  | offer {net : Network R} (line : Polyline R) (policy : DuplicatePolicy) :
      Reachable net → Reachable (net.offer line policy).value.1

/-- What is stored has two points, and so ends and a length. -/
theorem receive_of_line? (net : Network R) {a : Admission R} {new : Polyline R}
    (hnew : a.line? = some new) (htwo : 2 ≤ new.size) : ∃ ends, new.ends? = some ends ∧
      net.receive a =
        ((net.withLine new).connect net.collection.size ends new.pathLength,
          .ok net.collection.size) := by
  obtain ⟨ends, hends⟩ := new.exists_ends htwo
  refine ⟨ends, hends, ?_⟩
  cases a <;> cases hnew <;> simp only [receive, hends, new.length_eq htwo] <;> rfl

/-- An offer leaves a network alone, or stores a polyline and its edge. There is nothing in
between. -/
theorem offer_cases (net : Network R) (line : Polyline R) (policy : DuplicatePolicy) :
    (net.offer line policy).value.1 = net ∨
      ∃ new ends, 2 ≤ new.size ∧ (∀ name, new.name = some name → net.collection.idOf? name = none) ∧
        new.ends? = some ends ∧ (net.offer line policy).value.1 =
          (net.withLine new).connect net.collection.size ends new.pathLength := by
  unfold offer
  cases ha : net.collection.admission line policy with
  | error e => exact Or.inl rfl
  | ok a =>
    cases hnew : a.line? with
    | none =>
      cases a <;> cases hnew
      exact Or.inl rfl
    | some new =>
      obtain ⟨htwo, hfree⟩ := Collection.storable_of_admission ha hnew
      obtain ⟨ends, hends, hreceive⟩ := net.receive_of_line? hnew htwo
      exact Or.inr ⟨new, ends, htwo, hfree, hends, congrArg Prod.fst hreceive⟩

theorem WellFormed.offer {net : Network R} (h : WellFormed net) (line : Polyline R)
    (policy : DuplicatePolicy) : WellFormed (net.offer line policy).value.1 := by
  rcases net.offer_cases line policy with hsame | ⟨new, ends, htwo, hfree, hends, hnext⟩
  · rw [hsame]
    exact h
  · rw [hnext]
    exact h.connect (h.collection.store htwo hfree) hends

theorem Reachable.wellFormed {net : Network R} (h : Reachable net) : WellFormed net := by
  induction h with
  | empty => exact wellFormed_empty
  | offer line policy _ ih => exact ih.offer line policy

theorem Reachable.add {net next : Network R} (h : Reachable net) {line : Polyline R}
    {policy : DuplicatePolicy} {id : Nat} (hadd : (net.add line policy).value = .ok (next, id)) :
    Reachable next := by
  have hoffer := h.offer line policy
  simp only [Network.add, Logged.value_bind, Logged.value_pure] at hadd
  cases hanswer : (net.offer line policy).value.2 with
  | error e => rw [hanswer] at hadd; cases hadd
  | ok given =>
    rw [hanswer] at hadd
    cases hadd
    exact hoffer

theorem Reachable.addAll {net next : Network R} (h : Reachable net) {policy : DuplicatePolicy}
    {lines : List (Polyline R)} (hadd : (net.addAll policy lines).value = .ok next) :
    Reachable next := by
  induction lines generalizing net with
  | nil =>
    cases hadd
    exact h
  | cons line rest ih =>
    simp only [Network.addAll, Logged.value_bind] at hadd
    cases hone : (net.add line policy).value with
    | error e => rw [hone] at hadd; cases hadd
    | ok answer =>
      rw [hone] at hadd
      exact ih (h.add hone) hadd

theorem reachable_ofLines {lines : List (Polyline R)} {policy : DuplicatePolicy}
    {net : Network R} (h : (ofLines lines policy).value = .ok net) : Reachable net :=
  Reachable.empty.addAll h

theorem collection_intern (net : Network R) (p : Vec3 R) :
    (net.intern p).1.collection = net.collection := by
  unfold intern
  split <;> rfl

theorem collection_connect (net : Network R) (id : Nat) (ends : Vec3 R × Vec3 R) (length : R) :
    (net.connect id ends length).collection = net.collection := by
  simp only [Network.connect]
  rw [attachEnds_eq]
  exact (collection_intern _ ends.2).trans (net.collection_intern ends.1)

theorem collection_offer (net : Network R) (line : Polyline R) (policy : DuplicatePolicy) :
    (net.offer line policy).value.1.collection = net.collection.after line policy := by
  unfold Network.offer Collection.after Collection.add
  cases net.collection.admission line policy with
  | error e => rfl
  | ok a =>
    cases a with
    | skipped => rfl
    | stored | renamed =>
      simp only [receive]
      split
      · rfl
      · rfl
      · exact collection_connect ..

theorem Reachable.collection {net : Network R} (h : Reachable net) :
    net.collection.Reachable := by
  induction h with
  | empty => exact .empty
  | @offer net line policy _ ih =>
    rw [collection_offer]
    exact ih.add line policy

/-! ## The theorem -/

/-- **The parts of a network say exactly what its collection says**, whatever was offered to it and
whether or not it was taken. -/
theorem Reachable.parts_exact {net : Network R} (h : Reachable net) :
    net.edgeCount = net.collection.size ∧
    (∀ id line, net.collection.get? id = some line → ∃ first last start finish length,
      line.ends? = some (first, last) ∧ line.length = .ok length ∧
      net.edges[id]? = some ⟨start, finish, length⟩ ∧
      net.vertexId? first = some start ∧ net.vertexId? last = some finish) ∧
    (∀ p, (∃ v, net.vertexId? p = some v) ↔ ∃ q, net.IsEnd q ∧ q.SameKey p) ∧
    (∀ p q v, net.vertexId? p = some v → (net.vertexId? q = some v ↔ p.SameKey q)) ∧
    (∀ v, v < net.vertexCount ↔ ∃ p, net.vertexId? p = some v) ∧
    (∀ v, v < net.vertexCount →
      ∃ p, net.vertex? v = some p ∧ net.IsEnd p ∧ net.vertexId? p = some v) ∧
    net.incident.size = net.vertexCount ∧
    (∀ v, (net.edgeIdsAt v).Pairwise (· < ·) ∧ ∀ id, id ∈ net.edgeIdsAt v ↔
      ∃ edge, net.edges[id]? = some edge ∧ (edge.start = v ∨ edge.finish = v)) ∧
    net.index.entries.toList = net.vertices.toList.zipIdx := by
  have hwf := h.wellFormed
  have hvertex : ∀ v, v < net.vertexCount →
      ∃ p, net.vertex? v = some p ∧ net.IsEnd p ∧ net.vertexId? p = some v := by
    intro v hv
    obtain ⟨p, hp⟩ := net.exists_vertex? hv
    exact ⟨p, hp, hwf.isEnd hp, hwf.agree.vertexId?.mpr ⟨p, hp, .refl p⟩⟩
  refine ⟨hwf.edges_size, ?_, ?_, fun p q v hp => hwf.agree.same_vertex_iff hp, ?_, hvertex,
    hwf.agree.incident_size, fun v => ⟨hwf.edgeIdsAt_sorted v, fun id => hwf.mem_edgeIdsAt⟩,
    hwf.agree.indexed⟩
  · intro id line hget
    have htwo := hwf.collection.two_points hget
    obtain ⟨⟨first, last⟩, hends⟩ := line.exists_ends htwo
    obtain ⟨start, finish, hedge, hstart, hfinish⟩ := hwf.edge hget hends
    exact ⟨first, last, start, finish, line.pathLength, hends, line.length_eq htwo, hedge, hstart,
      hfinish⟩
  · intro p
    constructor
    · rintro ⟨v, hv⟩
      obtain ⟨q, hq, hkey⟩ := hwf.agree.vertexId?.mp hv
      exact ⟨q, hwf.isEnd hq, hkey⟩
    · rintro ⟨q, hend, hkey⟩
      obtain ⟨v, hv⟩ := hwf.exists_vertexId? hend
      exact ⟨v, (hwf.agree.same_vertex_iff hv).mpr hkey⟩
  · intro v
    constructor
    · intro hv
      obtain ⟨p, _, _, hid⟩ := hvertex v hv
      exact ⟨p, hid⟩
    · rintro ⟨p, hp⟩
      exact hwf.agree.lt_vertexCount hp

/-- Offers of a polyline, of the same one again, of a single point, and of a closed polyline that
starts and ends where the first one starts, with a zero of the other sign. -/
def offered : Network Float :=
  let line : Polyline Float := ⟨[⟨1.0, 0.0, 0.0⟩, ⟨0.0, 1.0, 0.0⟩], some "Main"⟩
  let first := (({} : Network Float).offer line .smart).value.1
  let second := (first.offer line .smart).value.1
  let third := (second.offer ⟨[⟨0.0, 0.0, 1.0⟩], none⟩ .smart).value.1
  (third.offer ⟨[⟨1.0, -0.0, 0.0⟩, ⟨0.0, 0.0, 1.0⟩, ⟨1.0, 0.0, 0.0⟩], some "Loop"⟩ .reject).value.1

theorem offered_parts_exact :
    Reachable offered ∧ offered.collection.size = 2 ∧ offered.edgeCount = 2 ∧
      offered.vertexCount = 2 ∧ offered.edgeIdsAt 0 = [0, 1] ∧
      (offered.edgeIdsAt 0).Pairwise (· < ·) := by
  have hreach : Reachable offered := .offer _ _ (.offer _ _ (.offer _ _ (.offer _ _ .empty)))
  have hsize : offered.collection.size = 2 := by decide +kernel
  have hexact := hreach.parts_exact
  exact ⟨hreach, hsize, hexact.1.trans hsize, by decide +kernel, by decide +kernel,
    (hexact.2.2.2.2.2.2.2.1 0).1⟩

end Network

end TransitShapes
