import TransitShapes.Proofs.Collection.Search
import TransitShapes.Proofs.Matcher.Best
import TransitShapes.Proofs.Network.Visits

/-! # What a pattern is matched with

The search by ends decides which of two ways is taken, and what is found on one way is never
compared with what the other would find. With two stops or more no part of either way fails.
-/

namespace TransitShapes

open Scalar

variable {R : Type} [Scalar R]

/-! ## The direction of travel -/

theorem Polyline.oriented_eq_or (line : Polyline R) (first last : Vec3 R) :
    line.oriented first last = line ∨ line.oriented first last = line.reversed := by
  unfold oriented
  split
  · exact Or.inl rfl
  · simp only
    split
    · exact Or.inr rfl
    · exact Or.inl rfl

theorem Polyline.points_oriented_ne_nil {line : Polyline R} (h : 2 ≤ line.size)
    (first last : Vec3 R) : (line.oriented first last).points ≠ [] := by
  have hpoints : line.points ≠ [] := by
    intro hnil
    simp [size, hnil] at h
  rcases line.oriented_eq_or first last with hsame | hsame <;> rw [hsame]
  · exact hpoints
  · simpa [reversed] using hpoints

/-- Of the numbered polylines, each in the direction of travel, the one that a pattern follows most
closely, and of equally close ones the one with the lowest number. -/
structure Collection.Closest (c : Collection R) (pattern : Polyline R) (first last : Vec3 R)
    (ids : List Nat) (id : Nat) (line : Polyline R) (score : R) : Prop where
  mem : id ∈ ids
  stored : ∃ own, c.get? id = some own ∧ line = own.oriented first last
  follows : pattern.followDistance line = .ok score
  least : ∀ other ∈ ids, ∀ own s, c.get? other = some own →
    pattern.followDistance (own.oriented first last) = .ok s →
      score ≤ s ∧ (s ≤ score → id ≤ other)

theorem Collection.WellFormed.exists_closest [LawfulSign R] {c : Collection R} (hc : c.WellFormed)
    {maxDistance : R} (hmax : ¬ IsNaN maxDistance) (pattern : Polyline R) (first last : Vec3 R)
    {ids : List Nat} (hne : ids ≠ []) (hsorted : ids.Pairwise (· < ·))
    (hids : ∀ id ∈ ids, ∃ line, c.get? id = some line) :
    ∃ id line score index, c.Closest pattern first last ids id line score ∧
      (bestMatch pattern ((ids.filterMap c.get?).map (·.oriented first last)) maxDistance).value =
        if score ≤ maxDistance then some ⟨score, index, line⟩ else none := by
  -- Every number leads to a polyline, so the candidates stand in the order of the numbers.
  obtain ⟨travel, htravel⟩ : ∃ travel : Nat → Polyline R, ∀ id own, c.get? id = some own →
      travel id = own.oriented first last :=
    ⟨fun id => ((c.get? id).getD {}).oriented first last, fun id own h => by simp [h]⟩
  have hmap : (ids.filterMap c.get?).map (·.oriented first last) = ids.map travel := by
    rw [List.map_filterMap, ← List.filterMap_eq_map]
    refine List.filterMap_congr fun id hid => ?_
    obtain ⟨line, hline⟩ := hids id hid
    simp [hline, htravel id line hline]
  have hpoints : ∀ line ∈ ids.map travel, line.points ≠ [] := by
    intro line hline
    obtain ⟨id, hid, rfl⟩ := List.mem_map.mp hline
    obtain ⟨own, hown⟩ := hids id hid
    rw [htravel id own hown]
    exact Polyline.points_oriented_ne_nil (hc.two_points hown) first last
  obtain ⟨before, line, after, score, index, hlines, hscore, hbefore, hafter, hvalue⟩ :=
    bestMatch_value pattern hmax (by simpa using hne) hpoints
  obtain ⟨lower, higher, rfl, rfl, hhigher⟩ := List.map_eq_append_iff.mp hlines
  obtain ⟨id, above, rfl, rfl, rfl⟩ := List.map_eq_cons_iff.mp hhigher
  obtain ⟨own, hown⟩ := hids id (by simp)
  refine ⟨id, travel id, score, index, ⟨by simp, ⟨own, hown, htravel id own hown⟩, hscore, ?_⟩, ?_⟩
  · intro other hother stored s hstored hs
    rw [← htravel other stored hstored] at hs
    obtain ⟨-, hsame, hcross⟩ := List.pairwise_append.mp hsorted
    rcases List.mem_append.mp hother with hother | hother
    · have hlt := hbefore (travel other) (List.mem_map_of_mem hother) s hs
      exact ⟨le_of_lt hlt, fun hle => absurd hle (LawfulOrder.lt_iff.mp hlt).2⟩
    · rcases List.mem_cons.mp hother with rfl | hother
      · cases hscore.symm.trans hs
        have hnumber := Polyline.not_isNaN_followDistance hscore
        exact ⟨Decidable.not_not.mp hnumber, fun _ => Nat.le_refl _⟩
      · exact ⟨hafter (travel other) (List.mem_map_of_mem hother) s hs,
          fun _ => Nat.le_of_lt ((List.pairwise_cons.mp hsame).1 other hother)⟩
  · rw [hmap]
    exact hvalue

namespace Matcher

variable {m : Matcher R} {pattern : List (Vec3 R)} {first last : Vec3 R}

/-- The numbers of the polylines that join two stops. -/
def joining (m : Matcher R) (first last : Vec3 R) : List Nat :=
  (m.network.collection.endpointSearch first last m.settings.maxDistance).value

theorem value_linesBetween (m : Matcher R) (first last : Vec3 R) :
    (m.network.collection.linesBetween first last m.settings.maxDistance).value =
      (m.joining first last).filterMap m.network.collection.get? := rfl

/-! ## The route through the network -/

theorem findPath_value_of_nearest (h : m.settings.search = .nearest) :
    (m.findPath pattern).value =
      (m.network.routeThrough pattern m.settings.maxDistance).value := by
  unfold findPath
  rw [h]
  rfl

theorem findPath_value_of_beam {keep : UInt64} (h : m.settings.search = .beam keep) :
    (m.findPath pattern).value =
      (m.network.beamRoute pattern m.settings.maxDistance keep.toNat).value := by
  unfold findPath
  rw [h]

theorem exists_findPath (m : Matcher R) (h : 2 ≤ pattern.length) :
    ∃ found, (m.findPath pattern).value = .ok found := by
  cases hsearch : m.settings.search with
  | nearest =>
    rw [findPath_value_of_nearest hsearch, Network.routeThrough_value h]
    exact ⟨_, rfl⟩
  | beam keep =>
    have hshort : ¬ pattern.length < 2 := by omega
    rw [findPath_value_of_beam hsearch]
    unfold Network.beamRoute
    simp only [hshort, if_false, Logged.value_bind]
    split <;> exact ⟨_, rfl⟩

theorem matchPath_value_eq_some_iff [LawfulSign R] (hmax : ¬ IsNaN m.settings.maxDistance)
    {found : Option (Polyline R)} {answer : ShapeMatch R} :
    (m.matchPath pattern found).value = some answer ↔ ∃ path score, found = some path ∧
      Polyline.followDistance { points := pattern } path = .ok score ∧
      score ≤ m.settings.maxDistance ∧ answer = ⟨path, score, .networkPath⟩ := by
  cases found with
  | none =>
    have hnone : (m.matchPath pattern none).value = none := rfl
    simp [hnone]
  | some path =>
    have hpath : (m.matchPath pattern (some path)).value =
        (bestMatch { points := pattern } [path] m.settings.maxDistance).value.map
          fun best => ⟨path, best.score, .networkPath⟩ := rfl
    rw [hpath]
    by_cases hpoints : path.points = []
    · rw [bestMatch, scoreAll_of_isEmpty _ hpoints]
      simp [lowest?, Polyline.followDistance_eq_ok_iff, hpoints]
    · obtain ⟨before, line, after, score, index, hlines, hscore, -, -, hvalue⟩ :=
        bestMatch_value { points := pattern } hmax (List.cons_ne_nil path [])
          (by simpa using hpoints)
      have hline : line ∈ [path] := by simp [hlines]
      cases List.mem_singleton.mp hline
      rw [hvalue]
      simp only [Option.some.injEq]
      constructor
      · intro hsome
        split at hsome
        case isTrue hin =>
          exact ⟨_, score, rfl, hscore, hin, (Option.some.inj hsome).symm⟩
        case isFalse => cases hsome
      · rintro ⟨_, s, rfl, hs, hin, rfl⟩
        cases hscore.symm.trans hs
        rw [if_pos hin]
        rfl

/-! ## The two ways -/

theorem matchPattern_of_length_lt (h : pattern.length < 2) :
    (m.matchPattern pattern).value = .error (.tooFewPoints 2 pattern.length) := by
  match pattern, h with
  | [], _ => rfl
  | [_], _ => rfl

theorem matchPattern_value (hlength : 2 ≤ pattern.length) (hfirst : pattern.head? = some first)
    (hlast : pattern.getLast? = some last) :
    (m.matchPattern pattern).value =
      let found := (m.joining first last).filterMap m.network.collection.get?
      if found.isEmpty then
        (m.findPath pattern).value.map fun path => (m.matchPath pattern path).value
      else .ok (m.matchEndpoints pattern first last found).value := by
  match pattern, hlength with
  | start :: second :: rest, _ =>
    cases hfirst
    have hfinish : (second :: rest).getLast (by simp) = last := by
      rw [List.getLast?_cons_cons, List.getLast?_eq_getLast_of_ne_nil (by simp)] at hlast
      exact Option.some.inj hlast
    rw [← value_linesBetween]
    unfold matchPattern
    simp only [hfinish, Logged.value_bind]
    split
    case isTrue =>
      rw [Logged.value_bind]
      cases (m.findPath (first :: second :: rest)).value <;> rfl
    case isFalse => rfl

theorem endsInRange_of_mem_joining {id : Nat} (h : id ∈ m.joining first last) :
    m.network.collection.EndsInRange first last m.settings.maxDistance id :=
  Collection.inRange_of_mem_endpointSearch h

theorem joining_sorted (m : Matcher R) (first last : Vec3 R) :
    (m.joining first last).Pairwise (· < ·) :=
  Collection.endpointSearch_sorted ..

/-- Where polylines join the first and the last stop, the closest of them is the only answer there
can be. -/
theorem exists_closest_of_joining [LawfulSign R] (hnet : m.network.Reachable)
    (hlength : 2 ≤ pattern.length) (hfirst : pattern.head? = some first)
    (hlast : pattern.getLast? = some last) (hne : m.joining first last ≠ []) :
    ∃ id line score, m.network.collection.Closest { points := pattern } first last
        (m.joining first last) id line score ∧
      (m.matchPattern pattern).value =
        .ok (if score ≤ m.settings.maxDistance then some ⟨line, score, .endpoints⟩ else none) := by
  have hmax : ¬ IsNaN m.settings.maxDistance := by
    obtain ⟨id, hid⟩ := List.exists_mem_of_ne_nil _ hne
    have hnonneg := Collection.nonneg_of_endsInRange (endsInRange_of_mem_joining hid)
    exact (LawfulOrder.isNumber_of_le hnonneg).2
  have hget : ∀ id ∈ m.joining first last, ∃ line, m.network.collection.get? id = some line := by
    intro id hid
    obtain ⟨line, _, _, hget, _⟩ := endsInRange_of_mem_joining hid
    exact ⟨line, hget⟩
  obtain ⟨id, line, score, index, hclosest, hvalue⟩ :=
    hnet.wellFormed.collection.exists_closest hmax { points := pattern } first last hne
      (m.joining_sorted first last) hget
  refine ⟨id, line, score, hclosest, ?_⟩
  have hfound : ¬ ((m.joining first last).filterMap m.network.collection.get?).isEmpty := by
    obtain ⟨own, hown, _⟩ := hclosest.stored
    intro hempty
    have hmem := List.mem_filterMap.mpr ⟨id, hclosest.mem, hown⟩
    rw [List.isEmpty_iff.mp hempty] at hmem
    cases hmem
  have hmatch : ∀ found, (m.matchEndpoints pattern first last found).value =
      (bestMatch { points := pattern } (found.map (·.oriented first last))
        m.settings.maxDistance).value.map fun best => ⟨best.line, best.score, .endpoints⟩ :=
    fun _ => rfl
  rw [matchPattern_value hlength hfirst hlast]
  simp only [if_neg hfound]
  rw [hmatch, hvalue]
  split <;> rfl

theorem matchPattern_of_joining_eq_nil (hlength : 2 ≤ pattern.length)
    (hfirst : pattern.head? = some first) (hlast : pattern.getLast? = some last)
    (hnil : m.joining first last = []) :
    (m.matchPattern pattern).value =
      (m.findPath pattern).value.map fun path => (m.matchPath pattern path).value := by
  rw [matchPattern_value hlength hfirst hlast]
  simp [hnil]

theorem exists_matchPattern [LawfulSign R] (hnet : m.network.Reachable)
    (hlength : 2 ≤ pattern.length) : ∃ answer, (m.matchPattern pattern).value = .ok answer := by
  match pattern, hlength with
  | first :: second :: rest, hlength =>
    obtain ⟨last, hlast⟩ : ∃ last, (first :: second :: rest).getLast? = some last :=
      ⟨_, List.getLast?_eq_getLast_of_ne_nil (List.cons_ne_nil _ _)⟩
    by_cases hnil : m.joining first last = []
    · obtain ⟨found, hfound⟩ := m.exists_findPath hlength
      rw [matchPattern_of_joining_eq_nil hlength rfl hlast hnil, hfound]
      exact ⟨_, rfl⟩
    · obtain ⟨id, line, score, _, hvalue⟩ := exists_closest_of_joining hnet hlength rfl hlast hnil
      exact ⟨_, hvalue⟩

/-! ## The theorem -/

/-- **The answer to a pattern.** With less than two stops it is an error, and with two or more it
never is. Polylines that join the first and the last stop decide alone: the closest of them is the
answer, if it is in range, and the first of equally close ones. Only where there is none is the
answer the route through the network, if that is in range: the one over the nearest vertices or the
one that the beam finds, as it is set. -/
theorem matchPattern_exact [LawfulSign R] (m : Matcher R) (hnet : m.network.Reachable)
    (hmax : 0.0 ≤ m.settings.maxDistance) (pattern : List (Vec3 R)) :
    (∀ e, (m.matchPattern pattern).value = .error e ↔
      pattern.length < 2 ∧ e = .tooFewPoints 2 pattern.length) ∧
    ∀ first last, 2 ≤ pattern.length → pattern.head? = some first →
      pattern.getLast? = some last →
      (m.joining first last).Pairwise (· < ·) ∧
      (m.joining first last ≠ [] → ∃ id line score,
        m.network.collection.Closest { points := pattern } first last (m.joining first last)
          id line score ∧
        (m.matchPattern pattern).value =
          .ok (if score ≤ m.settings.maxDistance then some ⟨line, score, .endpoints⟩ else none)) ∧
      (m.joining first last = [] → ∃ found, (m.findPath pattern).value = .ok found ∧
        (m.settings.search = .nearest →
          (m.network.routeThrough pattern m.settings.maxDistance).value = .ok found) ∧
        (∀ keep, m.settings.search = .beam keep →
          (m.network.beamRoute pattern m.settings.maxDistance keep.toNat).value = .ok found) ∧
        ∀ answer, (m.matchPattern pattern).value = .ok (some answer) ↔
          ∃ path score, found = some path ∧
            Polyline.followDistance { points := pattern } path = .ok score ∧
            score ≤ m.settings.maxDistance ∧ answer = ⟨path, score, .networkPath⟩) := by
  refine ⟨fun e => ?_, ?_⟩
  · rcases Nat.lt_or_ge pattern.length 2 with hshort | hlength
    · rw [matchPattern_of_length_lt hshort]
      simp [hshort, eq_comm]
    · obtain ⟨answer, hanswer⟩ := exists_matchPattern hnet hlength
      rw [hanswer]
      simp [Nat.not_lt.mpr hlength]
  · intro first last hlength hfirst hlast
    refine ⟨m.joining_sorted first last, ?_, ?_⟩
    · exact exists_closest_of_joining hnet hlength hfirst hlast
    · intro hnil
      obtain ⟨found, hfound⟩ := m.exists_findPath hlength
      refine ⟨found, hfound, fun h => (findPath_value_of_nearest h).symm.trans hfound,
        fun keep h => (findPath_value_of_beam h).symm.trans hfound, fun answer => ?_⟩
      rw [matchPattern_of_joining_eq_nil hlength hfirst hlast hnil, hfound]
      simp only [Except.map, Except.ok.injEq]
      exact matchPath_value_eq_some_iff (LawfulOrder.isNumber_of_le hmax).2

/-- The matcher of a network that some polylines were offered to, one after the other. -/
def ofLines (lines : List (Polyline R)) (settings : Settings R) : Matcher R where
  network := lines.foldl (fun net line => (net.offer line .smart).value.1) {}
  settings

theorem reachable_ofLines (lines : List (Polyline R)) (settings : Settings R) :
    (ofLines lines settings).network.Reachable :=
  List.foldlRecOn lines _ .empty fun _ hnet line _ => .offer line .smart hnet

/-- A way over the pole between two places, a shorter one back, the shorter one again, and a way on
from its end. -/
def crossing : Matcher Float :=
  ofLines [⟨[⟨1.0, 0.0, 0.0⟩, ⟨0.0, 0.0, 1.0⟩, ⟨0.0, 1.0, 0.0⟩], none⟩,
    ⟨[⟨0.0, 1.0, 0.0⟩, ⟨0.6, 0.8, 0.0⟩, ⟨1.0, 0.0, 0.0⟩], none⟩,
    ⟨[⟨1.0, 0.0, 0.0⟩, ⟨0.6, 0.8, 0.0⟩, ⟨0.0, 1.0, 0.0⟩], none⟩,
    ⟨[⟨0.0, 1.0, 0.0⟩, ⟨-1.0, 0.0, 0.0⟩], none⟩] {}

/-- The same ways, where a beam looks for routes. -/
def beamCrossing : Matcher Float := { crossing with settings := { search := .beam 4 } }

def crossingStops : List (Vec3 Float) := [⟨1.0, 0.0, 0.0⟩, ⟨0.6, 0.8, 0.0⟩, ⟨0.0, 1.0, 0.0⟩]

def onwardStops : List (Vec3 Float) := [⟨1.0, 0.0, 0.0⟩, ⟨0.0, 1.0, 0.0⟩, ⟨-1.0, 0.0, 0.0⟩]

theorem crossing_matchPattern_exact :
    crossing.network.Reachable ∧ 0.0 ≤ crossing.settings.maxDistance ∧
      crossing.joining ⟨1.0, 0.0, 0.0⟩ ⟨0.0, 1.0, 0.0⟩ = [0, 1, 2] ∧
      (∃ id line score, crossing.network.collection.Closest { points := crossingStops }
          ⟨1.0, 0.0, 0.0⟩ ⟨0.0, 1.0, 0.0⟩ (crossing.joining ⟨1.0, 0.0, 0.0⟩ ⟨0.0, 1.0, 0.0⟩)
          id line score ∧
        (crossing.matchPattern crossingStops).value =
          .ok (if score ≤ crossing.settings.maxDistance then some ⟨line, score, .endpoints⟩
            else none)) ∧
      crossing.joining ⟨1.0, 0.0, 0.0⟩ ⟨-1.0, 0.0, 0.0⟩ = [] ∧
      (∃ path score, (crossing.network.routeThrough onwardStops 150.0).value = .ok (some path) ∧
        (crossing.matchPattern onwardStops).value = .ok (some ⟨path, score, .networkPath⟩)) ∧
      ∃ path score, (crossing.network.beamRoute onwardStops 150.0 4).value = .ok (some path) ∧
        (beamCrossing.matchPattern onwardStops).value =
          .ok (some ⟨path, score, .networkPath⟩) := by
  have hreach : crossing.network.Reachable := reachable_ofLines ..
  have hmax : 0.0 ≤ crossing.settings.maxDistance := by decide +kernel
  have hids : crossing.joining ⟨1.0, 0.0, 0.0⟩ ⟨0.0, 1.0, 0.0⟩ = [0, 1, 2] := by decide +kernel
  have hnone : crossing.joining ⟨1.0, 0.0, 0.0⟩ ⟨-1.0, 0.0, 0.0⟩ = [] := by decide +kernel
  obtain ⟨-, hends, -⟩ := (crossing.matchPattern_exact hreach hmax crossingStops).2 _ _
    (by decide) rfl rfl
  obtain ⟨-, -, hroute⟩ := (crossing.matchPattern_exact hreach hmax onwardStops).2 _ _
    (by decide) rfl rfl
  obtain ⟨-, -, hbeam⟩ := (beamCrossing.matchPattern_exact hreach hmax onwardStops).2 _ _
    (by decide) rfl rfl
  obtain ⟨found, -, hfound, -, hiff⟩ := hroute hnone
  obtain ⟨answer, hanswer⟩ := exists_ok_of_isSome
    (by decide +kernel : (crossing.matchPattern onwardStops).value.toOption.join.isSome)
  obtain ⟨path, score, rfl, -, -, rfl⟩ := (hiff answer).mp hanswer
  obtain ⟨others, -, -, hothers, hiff'⟩ := hbeam hnone
  obtain ⟨another, hanother⟩ := exists_ok_of_isSome
    (by decide +kernel : (beamCrossing.matchPattern onwardStops).value.toOption.join.isSome)
  obtain ⟨path', score', rfl, -, -, rfl⟩ := (hiff' another).mp hanother
  exact ⟨hreach, hmax, hids, hends (hids ▸ List.cons_ne_nil 0 [1, 2]), hnone,
    ⟨path, score, hfound rfl, hanswer⟩, path', score', hothers 4 rfl, hanother⟩

end Matcher

end TransitShapes
