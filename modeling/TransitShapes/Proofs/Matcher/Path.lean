import TransitShapes.Proofs.Matcher.Answer
import TransitShapes.Proofs.Scalar.Product

/-! # Routes that are scored

A route passes a vertex in range of every stop, in order, but its score is taken anew: a stop is
matched with the nearest point of the whole route from the last one taken on. That point is the
vertex or a nearer one, and no stop is lost as long as none is drawn past the next one.
-/

namespace TransitShapes.Matcher

open Scalar

variable {R : Type} [Scalar R] {m : Matcher R} {pattern : List (Vec3 R)} {first last : Vec3 R}

/-- **A route through the stops is the answer if the stops stand along it**, and nothing else ever
is. It passes the vertices of the stops in order. -/
theorem matchPattern_of_route [LawfulSum R] [LawfulProduct R] (hnet : m.network.Reachable)
    (hsearch : m.settings.search = .nearest) (hlength : 2 ≤ pattern.length)
    (hfirst : pattern.head? = some first) (hlast : pattern.getLast? = some last)
    (hnil : m.joining first last = []) {path : Polyline R}
    (hroute : (m.network.routeThrough pattern m.settings.maxDistance).value = .ok (some path)) :
    (∃ vertices positions,
      List.Forall₂ (m.network.Snaps m.settings.maxDistance) pattern vertices ∧
      m.network.Visits path.points vertices positions) ∧
    (∀ positions, path.Attends m.settings.maxDistance pattern positions →
      ∃ score, score ≤ m.settings.maxDistance ∧
        (m.matchPattern pattern).value = .ok (some ⟨path, score, .networkPath⟩)) ∧
    ∀ answer, (m.matchPattern pattern).value = .ok (some answer) →
      answer.line = path ∧ answer.source = .networkPath ∧
        answer.score ≤ m.settings.maxDistance := by
  obtain ⟨hsize, vertices, positions, hsnaps, hvisits⟩ :=
    hnet.wellFormed.exists_visits_of_routeThrough hlength hroute
  have hmax : 0.0 ≤ m.settings.maxDistance := by
    cases hsnaps with
    | nil => cases hfirst
    | cons hsnap _ =>
      obtain ⟨q, _, hin⟩ := hsnap.inRange
      exact nonneg_of_distance_le hin
  have hnumber := (LawfulOrder.isNumber_of_le hmax).2
  have hvalue : (m.matchPattern pattern).value = .ok (m.matchPath pattern (some path)).value := by
    rw [matchPattern_of_joining_eq_nil hlength hfirst hlast hnil,
      findPath_value_of_nearest hsearch, hroute]
    rfl
  refine ⟨⟨vertices, positions, hsnaps, hvisits⟩, ?_, ?_⟩
  · intro positions hattends
    have hpoints : path.points ≠ [] := by
      intro hempty
      simp [Polyline.size, hempty] at hsize
    obtain ⟨score, hscore, hin⟩ := hattends.followDistance_le hmax ⟨pattern, none⟩ hpoints
    refine ⟨score, hin, ?_⟩
    rw [hvalue, (matchPath_value_eq_some_iff hnumber).mpr ⟨path, score, rfl, hscore, hin, rfl⟩]
  · intro answer hanswer
    rw [hvalue, Except.ok.injEq] at hanswer
    obtain ⟨_, score, hsame, _, hin, rfl⟩ := (matchPath_value_eq_some_iff hnumber).mp hanswer
    cases hsame
    exact ⟨rfl, rfl, hin⟩

/-- Two polylines that meet, one behind the other. -/
def relay : Matcher Float :=
  ofLines [⟨[⟨1.0, 0.0, 0.0⟩, ⟨0.6, 0.8, 0.0⟩], none⟩,
    ⟨[⟨0.0, 1.0, 0.0⟩, ⟨0.6, 0.8, 0.0⟩], none⟩] {}

theorem relay_matchPattern_of_route :
    ∃ path score,
      (relay.network.routeThrough [⟨1.0, 0.0, 0.0⟩, ⟨0.6, 0.8, 0.0⟩, ⟨0.0, 1.0, 0.0⟩]
        relay.settings.maxDistance).value = .ok (some path) ∧
      path.Attends relay.settings.maxDistance
        [⟨1.0, 0.0, 0.0⟩, ⟨0.6, 0.8, 0.0⟩, ⟨0.0, 1.0, 0.0⟩] [0, 1, 2] ∧
      score ≤ relay.settings.maxDistance ∧
      (relay.matchPattern [⟨1.0, 0.0, 0.0⟩, ⟨0.6, 0.8, 0.0⟩, ⟨0.0, 1.0, 0.0⟩]).value =
        .ok (some ⟨path, score, .networkPath⟩) := by
  have hreach : relay.network.Reachable := reachable_ofLines ..
  have hnil : relay.joining ⟨1.0, 0.0, 0.0⟩ ⟨0.0, 1.0, 0.0⟩ = [] := by decide +kernel
  have hany : (relay.network.routeThrough [⟨1.0, 0.0, 0.0⟩, ⟨0.6, 0.8, 0.0⟩, ⟨0.0, 1.0, 0.0⟩]
      relay.settings.maxDistance).value.toOption.join.any fun path =>
        path.Attends relay.settings.maxDistance
          [⟨1.0, 0.0, 0.0⟩, ⟨0.6, 0.8, 0.0⟩, ⟨0.0, 1.0, 0.0⟩] [0, 1, 2] := by decide +kernel
  obtain ⟨path, hroute, htest⟩ := exists_ok_of_any hany
  have hattends := of_decide_eq_true htest
  obtain ⟨-, hanswer, -⟩ := matchPattern_of_route hreach rfl (by decide) rfl rfl hnil hroute
  obtain ⟨score, hin, hvalue⟩ := hanswer [0, 1, 2] hattends
  exact ⟨path, score, hroute, hattends, hin, hvalue⟩

/-- The search through waypoints finds a route for stops that no polyline joins, and yet there is
no answer. -/
def Loses (m : Matcher R) (stops : List (Vec3 R)) : Prop :=
  ∃ first last path, stops.head? = some first ∧ stops.getLast? = some last ∧
    m.joining first last = [] ∧
    (m.network.routeThrough stops m.settings.maxDistance).value = .ok (some path) ∧
    ∀ answer, (m.matchPattern stops).value ≠ .ok (some answer)

theorem loses_of_isSome {stops : List (Vec3 R)} (hfirst : stops.head? = some first)
    (hlast : stops.getLast? = some last) (hnil : m.joining first last = [])
    (hroute : (m.network.routeThrough stops m.settings.maxDistance).value.toOption.join.isSome)
    (hnone : (m.matchPattern stops).value.toOption.join.isNone) : m.Loses stops := by
  obtain ⟨path, hpath⟩ := exists_ok_of_isSome hroute
  exact ⟨first, last, path, hfirst, hlast, hnil, hpath, not_ok_of_isNone hnone⟩

/-- A way out, and a way back past the first stop, nearer than the way out began. -/
def outAndBack : Matcher Float :=
  ofLines [.ofLatLngs [⟨0.0, -0.0004⟩, ⟨0.0, 0.01⟩] (some "Out"),
    .ofLatLngs [⟨0.0, 0.01⟩, ⟨0.0, 0.0⟩, ⟨0.01, 0.0⟩] (some "Back")] {}

/-- Two points without a direction are one vertex, but their angles to a place differ with the signs
of their zeros. -/
def signs : Matcher Float :=
  ofLines [⟨[⟨0.0, 0.0, 0.0⟩, ⟨0.0, 0.0, 1.0⟩], some "A"⟩,
    ⟨[⟨-0.0, -0.0, -0.0⟩, ⟨-1.0, 0.0, 0.0⟩], some "B"⟩] { maxDistance := 7000000.0 }

theorem outAndBack_and_signs_lost :
    outAndBack.network.Reachable ∧ outAndBack.settings.search = .nearest ∧
      outAndBack.Loses [.ofLatLng ⟨0.0, 0.0⟩, .ofLatLng ⟨0.0, 0.01⟩, .ofLatLng ⟨0.01, 0.0⟩] ∧
    signs.network.Reachable ∧ signs.settings.search = .nearest ∧
      signs.Loses [⟨1.0, 0.0, 0.0⟩, ⟨-1.0, -0.0, -0.0⟩] := by
  refine ⟨reachable_ofLines .., rfl, ?_, reachable_ofLines .., rfl, ?_⟩
  · exact loses_of_isSome rfl rfl (by decide +kernel) (by decide +kernel) (by decide +kernel)
  · exact loses_of_isSome rfl rfl (by decide +kernel) (by decide +kernel) (by decide +kernel)

end TransitShapes.Matcher
