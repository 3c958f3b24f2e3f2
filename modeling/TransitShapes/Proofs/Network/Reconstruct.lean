import TransitShapes.Proofs.Network.Waypoints
import TransitShapes.Proofs.Scalar.Zeros

/-! # Last hops are joined to one path

Walking back along last hops that do not go in a circle gives a chain of rides, and the path has
the points of all of them. Where two rides meet, both have a point of one vertex, and the second of
these is left out.
-/

namespace TransitShapes

open Scalar

variable {R : Type} [Scalar R]

/-! ## Two places of one vertex -/

theorem Vec3.SameKey.exists_distance_eq [LawfulZeros R] {q a b : Vec3 R} (ha : q.SameKey a)
    (hb : q.SameKey b) : ∃ r, q.SameKey r ∧ q.distance r = a.distance b := by
  obtain ⟨x, hx, hxmul⟩ := LawfulZeros.exists_mul_eq ha.1 hb.1
  obtain ⟨y, hy, hymul⟩ := LawfulZeros.exists_mul_eq ha.2.1 hb.2.1
  obtain ⟨z, hz, hzmul⟩ := LawfulZeros.exists_mul_eq ha.2.2 hb.2.2
  have hr : q.SameKey ⟨x, y, z⟩ := ⟨hx, hy, hz⟩
  obtain ⟨hxa, hya, hza⟩ := ha
  obtain ⟨hxb, hyb, hzb⟩ := hr.symm.trans hb
  refine ⟨⟨x, y, z⟩, hr, ?_⟩
  have hcross : (q.cross ⟨x, y, z⟩).norm = (a.cross b).norm := by
    unfold Vec3.norm Vec3.dot Vec3.cross
    rw [LawfulZeros.mul_self_eq (LawfulZeros.alike_sub (LawfulZeros.alike_mul hya hzb)
        (LawfulZeros.alike_mul hza hyb)),
      LawfulZeros.mul_self_eq (LawfulZeros.alike_sub (LawfulZeros.alike_mul hza hxb)
        (LawfulZeros.alike_mul hxa hzb)),
      LawfulZeros.mul_self_eq (LawfulZeros.alike_sub (LawfulZeros.alike_mul hxa hyb)
        (LawfulZeros.alike_mul hya hxb))]
  have hdot : q.dot ⟨x, y, z⟩ = a.dot b := by
    unfold Vec3.dot
    rw [hxmul, hymul, hzmul]
  unfold Vec3.distance Vec3.angle
  rw [hcross, hdot]

/-! ## Points that go on -/

namespace Polyline

/-- Points one after another, each list after the first without its first point. -/
def linked : List (List (Vec3 R)) → List (Vec3 R)
  | [] => []
  | points :: rest => points ++ rest.flatMap List.tail

omit [Scalar R] in
theorem linked_append_singleton {lists : List (List (Vec3 R))} (hne : lists ≠ [])
    (points : List (Vec3 R)) : linked (lists ++ [points]) = linked lists ++ points.tail := by
  obtain ⟨first, rest, rfl⟩ := List.exists_cons_of_ne_nil hne
  simp [linked]

theorem appendPoints_of_le {limit : R} {points incoming : List (Vec3 R)} {previous next : Vec3 R}
    (hlast : points.getLast? = some previous) (hfirst : incoming.head? = some next)
    (hle : previous.distance next ≤ limit) :
    appendPoints (some limit) points incoming = points ++ incoming.tail := by
  obtain ⟨rest, rfl⟩ := List.head?_eq_some_iff.mp hfirst
  unfold appendPoints
  rw [hlast]
  exact if_pos hle

omit [Scalar R] in
theorem length_linked {lists : List (List (Vec3 R))} (hne : ∀ points ∈ lists, points ≠ []) :
    (linked lists).length + (lists.length - 1) = (lists.map List.length).sum := by
  match lists with
  | [] => rfl
  | first :: rest =>
    obtain ⟨-, hrest⟩ := List.forall_mem_cons.mp hne
    have htails : (rest.flatMap List.tail).length + rest.length = (rest.map List.length).sum := by
      clear hne
      induction rest with
      | nil => rfl
      | cons points others ih =>
        obtain ⟨hpoints, hothers⟩ := List.forall_mem_cons.mp hrest
        have hpos := List.length_pos_of_ne_nil hpoints
        have hsum := ih hothers
        simp only [List.flatMap_cons, List.length_append, List.length_tail, List.length_cons,
          List.map_cons, List.sum_cons]
        omega
    simp only [linked, List.length_append, List.length_cons, List.map_cons, List.sum_cons]
    omega

end Polyline

namespace Network

variable {net : Network R} {last : LastHops} {start : Nat}

/-- Every vertex is no distance away from all places of its key. -/
def Coincides (net : Network R) : Prop :=
  ∀ v q, net.vertex? v = some q → ∀ p, q.SameKey p → IsZero (q.distance p)

theorem WellFormed.distance_le_of_vertexId? [LawfulZeros R] (h : WellFormed net)
    (hplaces : LawfulExact R ∨ net.Coincides) {v : Nat} {a b : Vec3 R}
    (ha : net.vertexId? a = some v) (hb : net.vertexId? b = some v) : a.distance b ≤ 0.0 := by
  obtain ⟨q, hq, hqa⟩ := h.agree.vertexId?.mp ha
  have hqb := hqa.trans ((h.agree.same_vertex_iff ha).mp hb)
  rcases hplaces with hexact | hzero
  · rw [← hqa.eq, ← hqb.eq, LawfulExact.distance_self]
    exact LawfulSign.zero_le_zero
  · obtain ⟨r, hr, hdistance⟩ := hqa.exists_distance_eq hqb
    rw [← hdistance]
    exact (hzero v q hq r hr).1

/-! ## From last hops to rides -/

/-- Last hops that lead back to the start, along polylines from each vertex to another one. -/
inductive Trail (net : Network R) (last : LastHops) (start : Nat) : List Hop → Nat → Prop where
  | start : last[start]? = none → Trail net last start [] start
  | hop {hops : List Hop} {hop : Hop} {v : Nat} {line : Polyline R} :
      Trail net last start hops hop.origin → last[v]? = some hop →
      Ride.Joins net ⟨hop.line, line⟩ hop.origin v → hop.origin ≠ v →
      Trail net last start (hops ++ [hop]) v

theorem Trail.leadsBack {hops : List Hop} {v : Nat} (h : net.Trail last start hops v) :
    last.LeadsBack start hops v := by
  induction h with
  | start hnone => exact .start hnone
  | hop _ hlast _ _ ih => exact .hop ih hlast

/-- A ride along the polyline of a hop, away from where the hop starts: as it is stored if its first
point is there, and reversed if its last point is. -/
structure Travels (net : Network R) (hop : Hop) (ride : Ride R) : Prop where
  id : ride.id = hop.line
  direction : ∃ line first last, net.collection.get? hop.line = some line ∧
    line.ends? = some (first, last) ∧
    (ride.line = line ∧ net.vertexId? first = some hop.origin ∧
        net.vertexId? last ≠ some hop.origin ∨
      ride.line = line.reversed ∧ net.vertexId? last = some hop.origin ∧
        net.vertexId? first ≠ some hop.origin)

theorem Ride.Joins.travels {hop : Hop} {line : Polyline R} {v : Nat}
    (h : Ride.Joins net ⟨hop.line, line⟩ hop.origin v) (hne : hop.origin ≠ v) :
    net.Travels hop ⟨hop.line, line⟩ := by
  obtain ⟨⟨stored, hget, hdirection⟩, first, last, hends, ha, hb⟩ := h
  have hlast : net.vertexId? last ≠ some hop.origin := by
    rw [hb]
    simpa using Ne.symm hne
  refine ⟨rfl, ?_⟩
  rcases hdirection with rfl | rfl
  · exact ⟨_, first, last, hget, hends, Or.inl ⟨rfl, ha, hlast⟩⟩
  · exact ⟨stored, last, first, hget, (stored.ends?_reversed first last).mp hends,
      Or.inr ⟨rfl, ha, hlast⟩⟩

theorem Trail.exists_rides (hnet : WellFormed net) {hops : List Hop} {v : Nat}
    (h : net.Trail last start hops v) : ∃ rides, net.Chain start rides v ∧
      List.Forall₂ net.Travels hops rides ∧
      hops.filterMap net.travelled? = rides.map Ride.line := by
  induction h with
  | start => exact ⟨[], .nil, .nil, rfl⟩
  | @hop hops hop v line _ _ hjoins hne ih =>
    obtain ⟨rides, hchain, htravels, hlines⟩ := ih
    obtain ⟨edge, hedge, hmem, rfl⟩ := hnet.across_of_joins hjoins
    obtain ⟨travelled, htravelled, hown⟩ := hnet.joins_of_hop hmem hedge
    refine ⟨rides ++ [⟨hop.line, travelled⟩], hchain.snoc hown,
      List.rel_append htravels (.cons (hown.travels hne) .nil), ?_⟩
    rw [List.filterMap_append, List.map_append, hlines]
    simp [htravelled]

/-! ## From rides to points -/

theorem Chain.points_join [LawfulZeros R] (hnet : WellFormed net)
    (hplaces : LawfulExact R ∨ net.Coincides) {a b : Nat} {rides : List (Ride R)}
    (h : net.Chain a rides b) :
    (Polyline.join (rides.map Ride.line) (some 0.0)).points =
      Polyline.linked (rides.map fun ride => ride.line.points) := by
  induction h with
  | nil => rfl
  | @snoc rides ride b c hchain hride ih =>
    rw [List.map_append, List.map_singleton, Polyline.points_join_append_singleton, ih,
      List.map_append, List.map_singleton]
    by_cases hfirst : rides = []
    · subst hfirst
      simp [Polyline.linked]
    · have hjoined := hchain.runs hnet (some 0.0)
      obtain ⟨q, hq, hqb⟩ := (hjoined.resolve_left fun hnil => hfirst hnil.1).last
      obtain ⟨p, hp, hpb⟩ := (hnet.runs_of_joins hride).first
      rw [ih] at hq
      have hle := hnet.distance_le_of_vertexId? hplaces hqb hpb
      rw [Polyline.appendPoints_of_le hq hp hle, Polyline.linked_append_singleton]
      simpa using hfirst

theorem Chain.points_ne_nil (hnet : WellFormed net) {a b : Nat} {rides : List (Ride R)}
    (h : net.Chain a rides b) : ∀ ride ∈ rides, ride.line.points ≠ [] := by
  induction h with
  | nil => simp
  | snoc _ hride ih =>
    refine List.forall_mem_append.mpr ⟨ih, List.forall_mem_singleton.mpr ?_⟩
    have htwo := (hnet.runs_of_joins hride).two_points
    exact List.length_pos_iff.mp (Nat.lt_of_lt_of_le Nat.zero_lt_two htwo)

theorem Chain.size_join [LawfulZeros R] (hnet : WellFormed net)
    (hplaces : LawfulExact R ∨ net.Coincides) {a b : Nat} {rides : List (Ride R)}
    (h : net.Chain a rides b) :
    (Polyline.join (rides.map Ride.line) (some 0.0)).size + (rides.length - 1) =
      (rides.map fun ride => ride.line.size).sum := by
  have hne : ∀ points ∈ rides.map fun ride => ride.line.points, points ≠ [] :=
    List.forall_mem_map.mpr (h.points_ne_nil hnet)
  have hlength := Polyline.length_linked hne
  rw [← h.points_join hnet hplaces, List.length_map, List.map_map] at hlength
  exact hlength

/-! ## The theorem -/

/-- **The path along last hops is a chain of rides.** Each ride has the polyline of its hop,
reversed where it is stored the other way round, and the points of all rides follow one another with
one point for each vertex on the way. The path leads from the start to the target, has the names of
its polylines, and where nothing is rounded their length. -/
theorem Reachable.reconstruct_exact [LawfulZeros R] (h : net.Reachable)
    (hplaces : LawfulExact R ∨ net.Coincides) {hops : List Hop} {target : Nat}
    (htrail : net.Trail last start hops target) (hne : hops ≠ []) :
    ∃ rides path, net.reconstruct last target = some path ∧ net.Chain start rides target ∧
      List.Forall₂ net.Travels hops rides ∧
      path.points = Polyline.linked (rides.map fun ride => ride.line.points) ∧
      path.size + (hops.length - 1) = (rides.map fun ride => ride.line.size).sum ∧
      (∃ p ∈ path.first?, net.IsAt start p) ∧ (∃ p ∈ path.last?, net.IsAt target p) ∧
      path.name = some (";".intercalate (rides.map fun ride => ride.line.name.getD "")) ∧
      (LawfulExact R → path.length = .ok (net.chainCost rides)) := by
  have hnet := h.wellFormed
  obtain ⟨rides, hchain, htravels, hlines⟩ := htrail.exists_rides hnet
  have hruns : net.Runs start target (Polyline.join (rides.map Ride.line) (some 0.0)).points := by
    refine (hchain.runs hnet _).resolve_left fun hnil => hne ?_
    rw [hnil.1] at htravels
    exact List.forall₂_nil_right_iff.mp htravels
  obtain ⟨p, hp, hstart⟩ := hruns.first
  obtain ⟨q, hq, htarget⟩ := hruns.last
  refine ⟨rides, _, htrail.leadsBack.reconstruct net, hchain, htravels, ?_⟩
  unfold joinHops
  rw [hlines]
  refine ⟨hchain.points_join hnet hplaces, ?_, ⟨p, hp, hnet.agree.vertexId?.mp hstart⟩,
    ⟨q, hq, hnet.agree.vertexId?.mp htarget⟩, ?_, ?_⟩
  · rw [htravels.length_eq]
    exact hchain.size_join hnet hplaces
  · simp [Polyline.join, Polyline.nameSeparator, List.map_map, Function.comp_def]
  · intro hexact
    rw [Polyline.length_eq _ hruns.two_points, hchain.pathLength_join hnet]

/-! ## Up and down a slope -/

theorem coincides_of_nonzero {net : Network Float} (h : ∀ q ∈ net.vertices,
    ¬ IsZero q.x ∧ ¬ IsZero q.y ∧ ¬ IsZero q.z ∧ IsZero (q.distance q)) : net.Coincides := by
  intro v q hq p hp
  obtain ⟨hx, hy, hz, hself⟩ := h q (Array.mem_of_getElem? hq)
  have hsame : q = p := Vec3.ext
    ((Binary64.alike_iff.mp hp.1).resolve_right fun hzero => hx hzero.1)
    ((Binary64.alike_iff.mp hp.2.1).resolve_right fun hzero => hy hzero.1)
    ((Binary64.alike_iff.mp hp.2.2).resolve_right fun hzero => hz hzero.1)
  exact hsame ▸ hself

/-- A polyline with a name, and one without a name that ends where the first one does. -/
def slope : Network Float :=
  let up := (({} : Network Float).offer
    ⟨[⟨0.36, 0.48, 0.8⟩, ⟨0.48, 0.64, 0.6⟩], some "Up"⟩ .smart).value.1
  (up.offer ⟨[⟨0.8, 0.36, 0.48⟩, ⟨0.64, 0.6, 0.48⟩, ⟨0.48, 0.64, 0.6⟩], none⟩ .smart).value.1

/-- Up the first polyline and down the second one. -/
def slopeHops : LastHops := (({} : LastHops).insert 1 ⟨0, 0⟩).insert 2 ⟨1, 1⟩

theorem slope_trail : slope.Trail slopeHops 0 [⟨0, 0⟩, ⟨1, 1⟩] 2 := by
  have hup : Ride.Joins slope ⟨0, ⟨[⟨0.36, 0.48, 0.8⟩, ⟨0.48, 0.64, 0.6⟩], some "Up"⟩⟩ 0 1 :=
    ⟨⟨_, rfl, Or.inl rfl⟩, _, _, rfl, by decide +kernel, by decide +kernel⟩
  have hdown : Ride.Joins slope
      ⟨1, ⟨[⟨0.48, 0.64, 0.6⟩, ⟨0.64, 0.6, 0.48⟩, ⟨0.8, 0.36, 0.48⟩], none⟩⟩ 1 2 :=
    ⟨⟨_, rfl, Or.inr rfl⟩, _, _, rfl, by decide +kernel, by decide +kernel⟩
  have hone : slopeHops[1]? = some (⟨0, 0⟩ : Hop) := by decide +kernel
  have htwo : slopeHops[2]? = some (⟨1, 1⟩ : Hop) := by decide +kernel
  have hstart : slope.Trail slopeHops 0 [] 0 := .start (by decide +kernel)
  exact (hstart.hop hone hup (by decide)).hop htwo hdown (by decide)

theorem slope_reconstruct_exact :
    ∃ rides path, slope.reconstruct slopeHops 2 = some path ∧ slope.Chain 0 rides 2 ∧
      List.Forall₂ slope.Travels [⟨0, 0⟩, ⟨1, 1⟩] rides ∧
      path.points = Polyline.linked (rides.map fun ride => ride.line.points) ∧
      path.size + 1 = (rides.map fun ride => ride.line.size).sum := by
  have hreach : slope.Reachable := .offer _ _ (.offer _ _ .empty)
  have hplaces : slope.Coincides := coincides_of_nonzero (by decide +kernel)
  obtain ⟨rides, path, hpath, hchain, htravels, hpoints, hsize, -⟩ :=
    hreach.reconstruct_exact (Or.inr hplaces) slope_trail (List.cons_ne_nil _ _)
  exact ⟨rides, path, hpath, hchain, htravels, hpoints, hsize⟩

end Network

end TransitShapes
