import TransitShapes.Proofs.Network.Exhaustive
import TransitShapes.Proofs.Network.Nearby
import TransitShapes.Proofs.Network.Progress

/-! # Both searches agree where there is no choice

Where no waypoint has two vertices in range, the nearest vertices are the only choice. A beam of one
partial route is wide enough for it, so both searches join the same routes, or fail together.
-/

namespace TransitShapes.Network

open Scalar

variable {R : Type} [Scalar R] {net : Network R} {maxDistance : R} {points : List (Vec3 R)}

/-- No waypoint has two vertices in range. -/
def IsForced (net : Network R) (maxDistance : R) (points : List (Vec3 R)) : Prop :=
  ∀ p ∈ points, ∀ a ∈ net.within p maxDistance, ∀ b ∈ net.within p maxDistance, a.vertex = b.vertex

instance (net : Network R) (maxDistance : R) (points : List (Vec3 R)) :
    Decidable (net.IsForced maxDistance points) :=
  inferInstanceAs (Decidable (∀ p ∈ points, ∀ a ∈ net.within p maxDistance,
    ∀ b ∈ net.within p maxDistance, a.vertex = b.vertex))

/-! ## The beam has no choice -/

theorem VerticesAgree.within_distinct (h : VerticesAgree net) (p : Vec3 R) (maxDistance : R) :
    (net.within p maxDistance).Pairwise fun a b => a.vertex ≠ b.vertex :=
  lookup_distinct (h.nodup_located (PointIndex.locates_within ..))

theorem IsForced.length_within_le (hforced : net.IsForced maxDistance points)
    (h : VerticesAgree net) {p : Vec3 R} (hp : p ∈ points) :
    (net.within p maxDistance).length ≤ 1 := by
  have hdistinct := h.within_distinct p maxDistance
  have hsame := hforced p hp
  match hrange : net.within p maxDistance with
  | [] => exact Nat.zero_le 1
  | [_] => exact le_refl 1
  | a :: b :: rest =>
    rw [hrange] at hdistinct hsame
    have hne := List.rel_of_pairwise_cons hdistinct List.mem_cons_self
    exact absurd (hsame a (by simp) b (by simp)) hne

theorem IsForced.choices_le (hforced : net.IsForced maxDistance points) (h : VerticesAgree net) :
    choices (points.map fun p => net.within p maxDistance) ≤ 1 := by
  unfold choices
  refine le_of_le_of_eq (List.prod_le_pow_card _ 1 ?_) (one_pow _)
  simp only [List.map_map, List.forall_mem_map, Function.comp_apply]
  exact fun p hp => hforced.length_within_le h hp

theorem value_beamRoute_max (hlength : 2 ≤ points.length) (maxDistance : R) (keep : Nat) :
    (net.beamRoute points maxDistance (keep.max 1)).value =
      (net.beamRoute points maxDistance keep).value := by
  rw [beamRoute_value hlength, beamRoute_value hlength]
  have hmax : (keep.max 1).max 1 = keep.max 1 := Nat.max_eq_left (Nat.le_max_right keep 1)
  rw [hmax]

/-! ## The search by nearest vertices chooses the same -/

theorem IsForced.snaps (hforced : net.IsForced maxDistance points) {p : Vec3 R} (hp : p ∈ points)
    {stop : Nearby R} (hstop : stop ∈ net.within p maxDistance) :
    net.Snaps maxDistance p stop.vertex := by
  obtain ⟨nearest, others, hrange⟩ := List.exists_cons_of_ne_nil (List.ne_nil_of_mem hstop)
  have hnearest : nearest ∈ net.within p maxDistance := hrange ▸ List.mem_cons_self
  rw [hforced p hp stop hstop nearest hnearest]
  exact snaps_of_within hrange

theorem IsForced.forall₂_snaps (hforced : net.IsForced maxDistance points)
    {stops : List (Nearby R)}
    (h : List.Forall₂ (fun p stop => stop ∈ net.within p maxDistance) points stops) :
    List.Forall₂ (net.Snaps maxDistance) points (stops.map Nearby.vertex) := by
  rw [List.forall₂_map_right_iff]
  have hpairs := (List.forall₂_and_left points stops).mpr ⟨fun p hp => hp, h⟩
  exact hpairs.imp fun p stop hpair => hforced.snaps hpair.1 hpair.2

/-- The only choice is the one of the nearest vertices, and its routes are joined. -/
theorem IsForced.routeThrough_of_assigns (hforced : net.IsForced maxDistance points)
    (hlength : 2 ≤ points.length) {stops : List (Nearby R)} {route : Partial R}
    (h : net.Assigns maxDistance points stops route) :
    (net.routeThrough points maxDistance).value = .ok (joinSegments route.segments) := by
  have hsnap := (snap_of_snaps (hforced.forall₂_snaps h.inRange)).1
  have hsegments := (segmentsThrough_eq_some_iff 0).mpr h.itinerary.routesAlong
  rw [routeThrough_value hlength, hsnap, Option.bind_some, hsegments, Option.bind_some]

theorem routeThrough_of_not_assigns (hlength : 2 ≤ points.length)
    (h : ¬ ∃ stops route, net.Assigns maxDistance points stops route) :
    (net.routeThrough points maxDistance).value = .ok none := by
  have hvalue : (net.routeThrough points maxDistance).value = _ :=
    routeThrough_value hlength maxDistance
  rw [hvalue, Except.ok.injEq, Option.eq_none_iff_forall_ne_some]
  intro path hpath
  rw [hpath] at hvalue
  exact h (exists_assigns_of_routeThrough hlength hvalue)

/-! ## The theorem -/

/-- **Both searches agree where there is no choice.** If no waypoint has two vertices in range, a
beam of any width and the search by nearest vertices give one answer. -/
theorem Reachable.beamRoute_eq_routeThrough (h : net.Reachable) (hlength : 2 ≤ points.length)
    (hforced : net.IsForced maxDistance points) (keep : Nat) (verbosity : UInt8) :
    ∃ answer, (net.beamRoute points maxDistance keep).value = .ok answer ∧
      (net.routeThroughLogged points maxDistance verbosity).value = .ok answer := by
  have hchoices := hforced.choices_le h.wellFormed.agree
  obtain ⟨answer, hvalue, hcases⟩ :=
    net.beamRoute_cases hlength (hchoices.trans (Nat.le_max_right keep 1))
  rw [value_beamRoute_max hlength] at hvalue
  refine ⟨answer, hvalue, ?_⟩
  unfold routeThroughLogged
  rw [Logged.value_mapLog]
  rcases hcases with ⟨rfl, p, hp, hempty⟩ | ⟨rfl, hno⟩ | ⟨stops, route, hleast, rfl⟩
  · refine routeThrough_of_not_assigns hlength ?_
    rintro ⟨stops, route, hassigns⟩
    exact hassigns.within_ne_nil p hp hempty
  · refine routeThrough_of_not_assigns hlength ?_
    rintro ⟨stops, route, hassigns⟩
    exact hno stops route hassigns
  · exact hforced.routeThrough_of_assigns hlength hleast.toAssigns

theorem roundabout_beamRoute_eq_routeThrough :
    ∃ path, (roundabout.beamRoute [⟨1.0, 0.0, 0.0⟩, ⟨1.0, 0.0, 0.0⟩, ⟨0.8, 0.6, 0.0⟩]
        100.0 0).value = .ok (some path) ∧
      (roundabout.routeThroughLogged [⟨1.0, 0.0, 0.0⟩, ⟨1.0, 0.0, 0.0⟩, ⟨0.8, 0.6, 0.0⟩]
        100.0 2).value = .ok (some path) := by
  have hreach : roundabout.Reachable := .offer _ _ .empty
  have hforced : roundabout.IsForced 100.0
      [⟨1.0, 0.0, 0.0⟩, ⟨1.0, 0.0, 0.0⟩, ⟨0.8, 0.6, 0.0⟩] := by decide +kernel
  have hfound : (roundabout.beamRoute [⟨1.0, 0.0, 0.0⟩, ⟨1.0, 0.0, 0.0⟩, ⟨0.8, 0.6, 0.0⟩]
      100.0 0).value.toOption.join.isSome := by decide +kernel
  obtain ⟨path, hpath⟩ := exists_ok_of_isSome hfound
  obtain ⟨answer, hbeam, hnearest⟩ := hreach.beamRoute_eq_routeThrough (by decide) hforced 0 2
  cases hbeam.symm.trans hpath
  exact ⟨path, hpath, hnearest⟩

end TransitShapes.Network
