import TransitShapes.Proofs.Network.RouteTable
import TransitShapes.Proofs.Network.Waypoints

/-! # What a beam holds

A step of the search goes on from every partial route to every vertex near the next waypoint. All
partial routes of a beam are itineraries. As long as nothing is cut off, the beam holds exactly the
itineraries so far, and the cheapest one first.
-/

namespace TransitShapes.Network

open Scalar

variable {R : Type} [Scalar R] {net : Network R}

/-! ## One step -/

omit [Scalar R] in
theorem mem_ways {α : Type} {beam : List α} {inRange : List (Nearby R)} {way : α × Nearby R} :
    way ∈ ways beam inRange ↔ way.1 ∈ beam ∧ way.2 ∈ inRange := by
  obtain ⟨part, next⟩ := way
  simp [ways]

theorem mem_extensions {beam : List (Partial R)} {inRange : List (Nearby R)} {longer : Partial R} :
    longer ∈ net.extensions beam inRange ↔
      ∃ part ∈ beam, ∃ next ∈ inRange, ∃ line,
        (net.route part.vertex next.vertex).value = some line ∧ part.extend line next = longer := by
  unfold extensions Partial.onward?
  rw [List.mem_filterMap]
  constructor
  · rintro ⟨⟨part, next⟩, hway, honward⟩
    obtain ⟨hpart, hnext⟩ := mem_ways.mp hway
    obtain ⟨line, hline, rfl⟩ := Option.map_eq_some_iff.mp honward
    exact ⟨part, hpart, next, hnext, line, hline, rfl⟩
  · rintro ⟨part, hpart, next, hnext, line, hline, rfl⟩
    exact ⟨(part, next), mem_ways.mpr ⟨hpart, hnext⟩, Option.map_eq_some_iff.mpr ⟨line, hline, rfl⟩⟩

theorem length_extensions_le (net : Network R) (beam : List (Partial R))
    (inRange : List (Nearby R)) :
    (net.extensions beam inRange).length ≤ beam.length * inRange.length := by
  apply Nat.le_trans (List.length_filterMap_le ..)
  simp [ways]

/-! ## Ranges -/

theorem rangeOfEach_cases (net : Network R) (maxDistance : R) (points : List (Vec3 R)) :
    (∃ p ∈ points, net.within p maxDistance = []) ∧
        (net.rangeOfEach maxDistance points).value = none ∨
      (∀ p ∈ points, net.within p maxDistance ≠ []) ∧
        (net.rangeOfEach maxDistance points).value =
          some (points.map fun p => net.within p maxDistance) := by
  induction points with
  | nil => exact Or.inr ⟨by simp, rfl⟩
  | cons p rest ih =>
    rw [List.exists_mem_cons_iff, List.forall_mem_cons, List.map_cons]
    simp only [rangeOfEach]
    cases net.within p maxDistance with
    | nil => exact Or.inl ⟨Or.inl rfl, rfl⟩
    | cons found others =>
      simp only [Logged.value_bind, Logged.value_pure]
      rcases ih with ⟨hempty, hvalue⟩ | ⟨hall, hvalue⟩ <;> rw [hvalue]
      · exact Or.inl ⟨Or.inr hempty, rfl⟩
      · exact Or.inr ⟨⟨List.cons_ne_nil _ _, hall⟩, rfl⟩

/-! ## Itineraries -/

/-- Vertices for the first waypoints, with the routes from each to the next. What they cost is added
up in the order of travel, the distance of each waypoint from its vertex after the route to it. -/
inductive Itinerary (net : Network R) : List (Nearby R) → Partial R → Prop where
  | start (stop : Nearby R) : Itinerary net [stop] ⟨stop.distance, stop.vertex, []⟩
  | travel {stops : List (Nearby R)} {part : Partial R} {next : Nearby R} {line : Polyline R} :
      Itinerary net stops part → (net.route part.vertex next.vertex).value = some line →
      Itinerary net (stops ++ [next]) ⟨part.cost + routeLength line + next.distance, next.vertex,
        part.segments ++ [line]⟩

theorem Itinerary.getLast? {stops : List (Nearby R)} {part : Partial R}
    (h : net.Itinerary stops part) : (stops.map Nearby.vertex).getLast? = some part.vertex := by
  cases h with
  | start => rfl
  | travel => simp

theorem Itinerary.eq_begin {stop : Nearby R} {part : Partial R} (h : net.Itinerary [stop] part) :
    part = .begin stop := by
  generalize hall : [stop] = all at h
  cases h with
  | start =>
    cases hall
    rfl
  | travel hbefore =>
    have hlast := hbefore.getLast?
    obtain ⟨hnil, -⟩ := List.append_eq_singleton_iff.mp hall.symm |>.resolve_right (by simp)
    rw [hnil] at hlast
    cases hlast

theorem Itinerary.routesAlong {stops : List (Nearby R)} {part : Partial R}
    (h : net.Itinerary stops part) :
    net.RoutesAlong (stops.map Nearby.vertex) part.segments := by
  unfold RoutesAlong
  induction h with
  | start => exact .nil
  | travel hbefore hroute ih =>
    rw [List.map_append, List.map_singleton, Polyline.zip_tail_append hbefore.getLast?]
    exact List.rel_append ih (.cons hroute .nil)

theorem Itinerary.exists_before {stops : List (Nearby R)} {next : Nearby R} {longer : Partial R}
    (h : net.Itinerary (stops ++ [next]) longer) (hne : stops ≠ []) :
    ∃ part line, net.Itinerary stops part ∧
      (net.route part.vertex next.vertex).value = some line ∧
      part.extend line next = longer := by
  generalize hall : stops ++ [next] = all at h
  cases h with
  | start =>
    rw [List.append_eq_singleton_iff] at hall
    rcases hall with ⟨hnil, -⟩ | ⟨-, hnil⟩
    · exact absurd hnil hne
    · cases hnil
  | travel hbefore hroute =>
    obtain ⟨rfl, hlast⟩ := List.append_inj' hall rfl
    cases hlast
    exact ⟨_, _, hbefore, hroute, rfl⟩

theorem Itinerary.exists_prefix {stops more : List (Nearby R)} {longer : Partial R}
    (h : net.Itinerary (stops ++ more) longer) (hne : stops ≠ []) :
    ∃ part, net.Itinerary stops part := by
  induction more using List.reverseRecOn generalizing longer with
  | nil =>
    rw [List.append_nil] at h
    exact ⟨longer, h⟩
  | append_singleton more next ih =>
    rw [← List.append_assoc] at h
    obtain ⟨part, -, hbefore, -⟩ := h.exists_before (List.append_ne_nil_of_left_ne_nil hne more)
    exact ih hbefore

theorem exists_itinerary_of_routesAlong {stops : List (Nearby R)} {segments : List (Polyline R)}
    (hne : stops ≠ []) (h : net.RoutesAlong (stops.map Nearby.vertex) segments) :
    ∃ part, net.Itinerary stops part ∧ part.segments = segments := by
  unfold RoutesAlong at h
  induction stops using List.reverseRecOn generalizing segments with
  | nil => exact absurd rfl hne
  | append_singleton stops next ih =>
    by_cases hfirst : stops = []
    · subst hfirst
      cases h
      exact ⟨_, .start next, rfl⟩
    · have hlast := List.getLast?_eq_getLast_of_ne_nil (l := stops.map Nearby.vertex) (by simpa)
      rw [List.map_append, List.map_singleton, Polyline.zip_tail_append hlast] at h
      obtain ⟨others, line, rfl, hothers, hline⟩ := exists_of_forall₂_append_singleton h
      obtain ⟨part, hpart, rfl⟩ := ih hfirst hothers
      rw [Option.some.inj (hlast.symm.trans hpart.getLast?)] at hline
      exact ⟨_, hpart.travel hline, rfl⟩

/-! ## Complete beams -/

/-- A beam holds exactly the itineraries over vertices in some ranges. -/
def Complete (net : Network R) (ranges : List (List (Nearby R))) (beam : List (Partial R)) :
    Prop :=
  ∀ part, part ∈ beam ↔
    ∃ stops, List.Forall₂ (fun range stop => stop ∈ range) ranges stops ∧ net.Itinerary stops part

theorem complete_start (net : Network R) (inRange : List (Nearby R)) :
    net.Complete [inRange] (inRange.map Partial.begin) := by
  intro part
  rw [List.mem_map]
  constructor
  · rintro ⟨stop, hstop, rfl⟩
    exact ⟨[stop], .cons hstop .nil, .start stop⟩
  · rintro ⟨stops, hstops, hroute⟩
    obtain ⟨stop, rest, hstop, hnil, rfl⟩ := List.forall₂_cons_left_iff.mp hstops
    cases hnil
    exact ⟨stop, hstop, hroute.eq_begin.symm⟩

theorem Complete.extensions {ranges : List (List (Nearby R))} {beam : List (Partial R)}
    (h : net.Complete ranges beam) (hne : ranges ≠ []) (inRange : List (Nearby R)) :
    net.Complete (ranges ++ [inRange]) (net.extensions beam inRange) := by
  intro longer
  rw [mem_extensions]
  constructor
  · rintro ⟨part, hpart, next, hnext, line, hline, rfl⟩
    obtain ⟨stops, hstops, hroute⟩ := (h part).mp hpart
    exact ⟨stops ++ [next], List.rel_append hstops (.cons hnext .nil), hroute.travel hline⟩
  · rintro ⟨stops, hstops, hroute⟩
    obtain ⟨before, next, rfl, hbefore, hnext⟩ := exists_of_forall₂_append_singleton hstops
    have hsome : before ≠ [] := by
      rintro rfl
      cases hbefore
      exact hne rfl
    obtain ⟨part, line, hpart, hline, rfl⟩ := hroute.exists_before hsome
    exact ⟨part, (h part).mpr ⟨before, hbefore, hpart⟩, next, hnext, line, hline, rfl⟩

theorem Complete.not_itinerary {ranges more : List (List (Nearby R))}
    (h : net.Complete ranges []) (hne : ranges ≠ []) {stops : List (Nearby R)} {part : Partial R}
    (hstops : List.Forall₂ (fun range stop => stop ∈ range) (ranges ++ more) stops) :
    ¬ net.Itinerary stops part := by
  intro hroute
  obtain ⟨before, rest, rfl, hbefore, -⟩ := exists_of_forall₂_append hstops
  have hsome : before ≠ [] := by
    rintro rfl
    cases hbefore
    exact hne rfl
  obtain ⟨first, hfirst⟩ := hroute.exists_prefix hsome
  exact List.not_mem_nil ((h first).mpr ⟨before, hbefore, hfirst⟩)

/-! ## The order of a beam -/

instance : Std.TransCmp fun a b : Partial R => total a.cost b.cost where
  eq_swap {a b} :=
    show total a.cost b.cost = (total b.cost a.cost).swap from Std.OrientedCmp.eq_swap
  isLE_trans {a b c} hab hbc :=
    show (total a.cost c.cost).isLE from Std.TransCmp.isLE_trans (b := b.cost) hab hbc

/-- Every partial route is followed by others that cost no less. -/
def Ascends (beam : List (Partial R)) : Prop :=
  beam.Pairwise fun a b => (total a.cost b.cost).isLE

theorem ascends_cheapest (keep : Nat) (routes : List (Partial R)) :
    Ascends (cheapest Partial.cost keep routes) :=
  (Ascending.sort_sorted (fun a b : Partial R => total a.cost b.cost) routes).take

theorem cheapest_perm {keep : Nat} {routes : List (Partial R)} (h : routes.length ≤ keep) :
    (cheapest Partial.cost keep routes).Perm routes := by
  have hsort := Ascending.sort_perm (fun a b : Partial R => total a.cost b.cost) routes
  unfold cheapest
  rw [List.take_of_length_le (Nat.le_trans (Nat.le_of_eq hsort.length_eq) h)]
  exact hsort

theorem Complete.cheapest {ranges : List (List (Nearby R))} {keep : Nat}
    {routes : List (Partial R)} (h : net.Complete ranges routes) (hkeep : routes.length ≤ keep) :
    net.Complete ranges (cheapest Partial.cost keep routes) :=
  fun part => (cheapest_perm hkeep).mem_iff.trans (h part)

/-! ## A whole run -/

/-- As many itineraries as there can be over some ranges. -/
def choices (ranges : List (List (Nearby R))) : Nat := (ranges.map List.length).prod

omit [Scalar R] in
theorem choices_pos {ranges : List (List (Nearby R))} (h : ∀ range ∈ ranges, range ≠ []) :
    0 < choices ranges := by
  apply List.prod_pos
  intro n hn
  obtain ⟨range, hrange, rfl⟩ := List.mem_map.mp hn
  exact List.length_pos_of_ne_nil (h range hrange)

/-- If a beam is wide enough for all choices, it is complete to the end, or there is no itinerary to
the end. -/
theorem Complete.advanceAnew {ranges rest : List (List (Nearby R))} {beam : List (Partial R)}
    {keep : Nat} (h : net.Complete ranges beam) (hascends : Ascends beam) (hne : ranges ≠ [])
    (hrest : ∀ range ∈ rest, range ≠ []) (hkeep : beam.length * choices rest ≤ keep) :
    (∃ final, net.advanceAnew keep rest beam = some final ∧ Ascends final ∧
        net.Complete (ranges ++ rest) final) ∨
      net.advanceAnew keep rest beam = none ∧ ∀ stops part,
        List.Forall₂ (fun range stop => stop ∈ range) (ranges ++ rest) stops →
          ¬ net.Itinerary stops part := by
  -- What a step finds is no more than the choices up to there, and the ranges that are left have
  -- choices, so the width that is enough for all of them is enough for the step.
  induction rest generalizing ranges beam with
  | nil =>
    rw [List.append_nil]
    exact Or.inl ⟨beam, rfl, hascends, h⟩
  | cons inRange rest ih =>
    obtain ⟨-, hothers⟩ := List.forall_mem_cons.mp hrest
    have hlength := net.length_extensions_le beam inRange
    have hchoices : beam.length * inRange.length * choices rest ≤ keep := by
      rw [Nat.mul_assoc]
      exact hkeep
    have hroom : (net.extensions beam inRange).length ≤ keep := by
      apply Nat.le_trans _ hchoices
      exact Nat.le_trans hlength (Nat.le_mul_of_pos_right _ (choices_pos hothers))
    have hnext := (h.extensions hne inRange).cheapest hroom
    have hkept := (cheapest_perm hroom).length_eq
    have hsorted := ascends_cheapest keep (net.extensions beam inRange)
    simp only [Network.advanceAnew]
    rw [List.append_cons ranges inRange rest]
    cases hcheapest : Network.cheapest Partial.cost keep (net.extensions beam inRange) with
    | nil =>
      rw [hcheapest] at hnext
      exact Or.inr ⟨rfl, fun stops part hstops => hnext.not_itinerary (by simp) hstops⟩
    | cons first others =>
      rw [hcheapest] at hnext hkept hsorted
      apply ih hnext hsorted (by simp) hothers
      rw [hkept]
      exact Nat.le_trans (Nat.mul_le_mul_right _ hlength) hchoices

theorem complete_advanceAnew (net : Network R) {first : List (Nearby R)}
    {others : List (List (Nearby R))} {keep : Nat} (hothers : ∀ range ∈ others, range ≠ [])
    (hkeep : choices (first :: others) ≤ keep) :
    (∃ final, net.advanceAnew keep others (cheapest Partial.cost keep (first.map Partial.begin)) =
          some final ∧ Ascends final ∧ net.Complete (first :: others) final) ∨
      net.advanceAnew keep others (cheapest Partial.cost keep (first.map Partial.begin)) = none ∧
        ∀ stops part, List.Forall₂ (fun range stop => stop ∈ range) (first :: others) stops →
          ¬ net.Itinerary stops part := by
  have hchoices : first.length * choices others ≤ keep := hkeep
  have hroom : (first.map Partial.begin).length ≤ keep := by
    rw [List.length_map]
    exact Nat.le_trans (Nat.le_mul_of_pos_right _ (choices_pos hothers)) hchoices
  have hstart := (net.complete_start first).cheapest hroom
  apply hstart.advanceAnew (ascends_cheapest ..) (by simp) hothers
  rw [(cheapest_perm hroom).length_eq, List.length_map]
  exact hchoices

end TransitShapes.Network
