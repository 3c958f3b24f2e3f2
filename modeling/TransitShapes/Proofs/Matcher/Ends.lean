import TransitShapes.Proofs.Matcher.Answer
import TransitShapes.Proofs.Network.Walk
import TransitShapes.Proofs.Scalar.Sum

/-! # Which end comes first

A polyline is found if its ends are near the stops in one direction or the other, but only one
direction is scored: the one with the smaller sum of both distances. The two agree where the stops
are far enough apart.
-/

namespace TransitShapes

open Scalar

variable {R : Type} [Scalar R]

/-- Of two ways to pair the ends with the stops, of which one is in range, the one with the smaller
sum is in range if each stop is far from one of the ends. -/
theorem Scalar.le_of_sum_le [LawfulDoubling R] {a b c d bound : R} (hc : Unsigned c)
    (hd : Unsigned d) (hbound : Unsigned bound)
    (hfinite : isFinite (bound + bound)) (hin : a ≤ bound ∧ b ≤ bound ∨ c ≤ bound ∧ d ≤ bound)
    (hsum : ¬ c + d < a + b) (hac : bound < a ∨ bound < c) (hbd : bound < b ∨ bound < d) :
    a ≤ bound ∧ b ≤ bound := by
  rcases hin with hin | ⟨hcin, hdin⟩
  · exact hin
  · have ha' : bound < a := hac.resolve_right fun h => (LawfulOrder.lt_iff.mp h).2 hcin
    have hb' : bound < b := hbd.resolve_right fun h => (LawfulOrder.lt_iff.mp h).2 hdin
    have hle : c + d ≤ bound + bound := add_le_double hc hd hbound hcin hdin
    have hlt : bound + bound < a + b := LawfulDoubling.double_lt_add hbound hfinite ha' hb'
    exact absurd (lt_of_le_of_lt hle hlt) hsum

namespace Polyline

theorem oriented_eq {line : Polyline R} {start finish : Vec3 R}
    (h : line.ends? = some (start, finish)) (first last : Vec3 R) :
    line.oriented first last =
      if first.distance finish + last.distance start < first.distance start + last.distance finish
      then line.reversed else line := by
  unfold oriented
  rw [h]

theorem exists_ends_oriented [LawfulOrder R] {line : Polyline R} {start finish : Vec3 R}
    (h : line.ends? = some (start, finish)) (first last : Vec3 R) :
    ∃ p q, (line.oriented first last).ends? = some (p, q) ∧
      (p = start ∧ q = finish ∨ p = finish ∧ q = start) ∧
      ¬ first.distance q + last.distance p < first.distance p + last.distance q := by
  rw [oriented_eq h]
  split
  case isTrue hlt =>
    exact ⟨finish, start, (line.ends?_reversed finish start).mpr h, Or.inr ⟨rfl, rfl⟩,
      fun hback => lt_irrefl _ (lt_trans hlt hback)⟩
  case isFalse hnot => exact ⟨start, finish, h, Or.inl ⟨rfl, rfl⟩, hnot⟩

end Polyline

namespace Matcher

variable {m : Matcher R} {pattern : List (Vec3 R)} {first last : Vec3 R} {answer : ShapeMatch R}

theorem source_of_matchPath {found : Option (Polyline R)}
    (h : (m.matchPath pattern found).value = some answer) : answer.source = .networkPath := by
  cases found with
  | none => cases h
  | some path =>
    obtain ⟨best, -, rfl⟩ := Option.map_eq_some_iff.mp h
    rfl

theorem exists_stored_of_endpoints [LawfulSign R] (hnet : m.network.Reachable)
    (hfirst : pattern.head? = some first) (hlast : pattern.getLast? = some last)
    (hanswer : (m.matchPattern pattern).value = .ok (some answer))
    (hsource : answer.source = .endpoints) :
    ∃ id ∈ m.joining first last, ∃ own, m.network.collection.get? id = some own ∧
      answer.line = own.oriented first last := by
  have hlength : 2 ≤ pattern.length := by
    by_contra hshort
    rw [matchPattern_of_length_lt (by omega)] at hanswer
    cases hanswer
  by_cases hnil : m.joining first last = []
  · rw [matchPattern_of_joining_eq_nil hlength hfirst hlast hnil] at hanswer
    obtain ⟨found, hfound⟩ := m.exists_findPath hlength
    rw [hfound] at hanswer
    have hpath := source_of_matchPath (Except.ok.inj hanswer)
    rw [hsource] at hpath
    cases hpath
  · obtain ⟨id, line, score, hclosest, hvalue⟩ :=
      exists_closest_of_joining hnet hlength hfirst hlast hnil
    obtain ⟨own, hown, hline⟩ := hclosest.stored
    refine ⟨id, hclosest.mem, own, hown, ?_⟩
    rw [hvalue, Except.ok.injEq] at hanswer
    split at hanswer
    case isTrue =>
      rw [← Option.some.inj hanswer]
      exact hline
    case isFalse => cases hanswer

/-- **The ends of a polyline that is matched by them** are in range of the first and the last stop,
one way or the other, and in the direction of the answer their distances add up to no more. So they
are in range in that direction if neither stop is near both ends. -/
theorem ends_of_endpoints [LawfulDoubling R] (hnet : m.network.Reachable)
    (hfirst : pattern.head? = some first) (hlast : pattern.getLast? = some last)
    (hanswer : (m.matchPattern pattern).value = .ok (some answer))
    (hsource : answer.source = .endpoints) :
    ∃ id own p q, m.network.collection.get? id = some own ∧
      (answer.line = own ∨ answer.line = own.reversed) ∧ answer.line.ends? = some (p, q) ∧
      (first.distance p ≤ m.settings.maxDistance ∧ last.distance q ≤ m.settings.maxDistance ∨
        first.distance q ≤ m.settings.maxDistance ∧ last.distance p ≤ m.settings.maxDistance) ∧
      ¬ first.distance q + last.distance p < first.distance p + last.distance q ∧
      (Unsigned m.settings.maxDistance →
        isFinite (m.settings.maxDistance + m.settings.maxDistance) →
        m.settings.maxDistance < first.distance p ∨ m.settings.maxDistance < first.distance q →
        m.settings.maxDistance < last.distance q ∨ m.settings.maxDistance < last.distance p →
        first.distance p ≤ m.settings.maxDistance ∧ last.distance q ≤ m.settings.maxDistance) := by
  obtain ⟨id, hid, own, hget, hline⟩ :=
    exists_stored_of_endpoints hnet hfirst hlast hanswer hsource
  obtain ⟨stored, start, finish, hstored, hends, hin⟩ := endsInRange_of_mem_joining hid
  cases hget.symm.trans hstored
  obtain ⟨p, q, hpq, hsame, hsum⟩ := own.exists_ends_oriented hends first last
  have hin' : first.distance p ≤ m.settings.maxDistance ∧
        last.distance q ≤ m.settings.maxDistance ∨
      first.distance q ≤ m.settings.maxDistance ∧
        last.distance p ≤ m.settings.maxDistance := by
    rcases hsame with ⟨rfl, rfl⟩ | ⟨rfl, rfl⟩
    · exact hin
    · exact hin.symm
  refine ⟨id, own, p, q, hget, hline ▸ own.oriented_eq_or first last, hline ▸ hpq, hin', hsum, ?_⟩
  intro hmax hfinite hfirst' hlast'
  exact le_of_sum_le (unsigned_distance _ _) (unsigned_distance _ _) hmax hfinite hin' hsum
    hfirst' hlast'

theorem crossing_ends_of_endpoints :
    ∃ answer p q,
      (crossing.matchPattern [⟨1.0, 0.0, 0.0⟩, ⟨0.0, 1.0, 0.0⟩]).value = .ok (some answer) ∧
      answer.source = .endpoints ∧ answer.line.ends? = some (p, q) ∧
      Vec3.distance ⟨1.0, 0.0, 0.0⟩ p ≤ crossing.settings.maxDistance ∧
      Vec3.distance ⟨0.0, 1.0, 0.0⟩ q ≤ crossing.settings.maxDistance := by
  have hreach : crossing.network.Reachable := reachable_ofLines ..
  have hany : (crossing.matchPattern [⟨1.0, 0.0, 0.0⟩, ⟨0.0, 1.0, 0.0⟩]).value.toOption.join.any
      fun answer => answer.source = .endpoints ∧ answer.line.ends?.any fun (p, q) =>
        crossing.settings.maxDistance < Vec3.distance ⟨1.0, 0.0, 0.0⟩ q ∧
        crossing.settings.maxDistance < Vec3.distance ⟨0.0, 1.0, 0.0⟩ p := by decide +kernel
  obtain ⟨answer, hanswer, htest⟩ := exists_ok_of_any hany
  obtain ⟨hsource, hfar⟩ := of_decide_eq_true htest
  obtain ⟨id, own, p, q, -, -, hends, -, -, hin⟩ :=
    ends_of_endpoints hreach rfl rfl hanswer hsource
  rw [hends] at hfar
  obtain ⟨hfirst, hlast⟩ := of_decide_eq_true hfar
  have ⟨hp, hq⟩ := hin ((Binary64.unsigned_iff _).mpr (by decide +kernel)) (by decide +kernel)
    (Or.inr hfirst) (Or.inr hlast)
  exact ⟨answer, p, q, hanswer, hsource, hends, hp, hq⟩

def alone (line : Polyline Float) : Matcher Float := ofLines [line] {}

theorem get?_alone {line : Polyline Float} (h : 2 ≤ line.size) :
    (alone line).network.collection.get? 0 = some line := by
  have hstore : (alone line).network.collection = ({} : Collection Float).store line :=
    (Network.collection_offer {} line .smart).trans
      (Collection.after_of_free h (by simp [Collection.idOf?]) .smart)
  rw [hstore, Collection.get?_store]
  rfl

/-- From a place a little less than 150 meters off, away to the side. -/
def hook : Polyline Float := .ofLatLngs [⟨0.0, 0.00134⟩, ⟨0.00128, 0.00096⟩] (some "Hook")

/-- The direction with the smaller sum leads away from the first stop, although in the other one
both ends are in range. -/
theorem hook_ends_out_of_range :
    (alone hook).network.Reachable ∧ ∃ first last answer p q,
      ((alone hook).matchPattern [first, last]).value = .ok (some answer) ∧
      answer.source = .endpoints ∧ answer.line.ends? = some (p, q) ∧
      ¬ first.distance p ≤ (alone hook).settings.maxDistance ∧
      first.distance q ≤ (alone hook).settings.maxDistance ∧
      last.distance p ≤ (alone hook).settings.maxDistance := by
  obtain ⟨first, hfirst⟩ : ∃ first, first = Vec3.ofLatLng (R := Float) ⟨0.0, 0.0⟩ := ⟨_, rfl⟩
  obtain ⟨last, hlast⟩ : ∃ last, last = Vec3.ofLatLng (R := Float) ⟨0.0, 0.00134⟩ := ⟨_, rfl⟩
  have hany : ((alone hook).matchPattern [first, last]).value.toOption.join.any fun answer =>
      answer.source = .endpoints ∧ answer.line.ends?.any fun (p, q) =>
        ¬ first.distance p ≤ (alone hook).settings.maxDistance ∧
        first.distance q ≤ (alone hook).settings.maxDistance ∧
        last.distance p ≤ (alone hook).settings.maxDistance := by
    subst hfirst hlast
    decide +kernel
  obtain ⟨answer, hanswer, htest⟩ := exists_ok_of_any hany
  obtain ⟨hsource, hends⟩ := of_decide_eq_true htest
  obtain ⟨⟨p, q⟩, hpq, hfar⟩ := (Option.any_eq_true ..).mp hends
  exact ⟨reachable_ofLines .., first, last, answer, p, q, hanswer, hsource, hpq,
    of_decide_eq_true hfar⟩

/-! ## Directions that are not missed -/

theorem mem_joining_of_endsInRange [LawfulSign R] (hnet : m.network.Reachable)
    (hstart : m.network.collection.WindowCovers first m.settings.maxDistance)
    (hfinish : m.network.collection.WindowCovers last m.settings.maxDistance) {id : Nat}
    (h : m.network.collection.EndsInRange first last m.settings.maxDistance id) :
    id ∈ m.joining first last := by
  have hpositive := Collection.nonneg_of_endsInRange h
  have hsize : ¬ m.network.collection.isEmpty := by
    obtain ⟨line, _, _, hget, _⟩ := h
    have := Collection.lt_size_of_get? hget
    simp only [Collection.isEmpty, Array.isEmpty_iff_size_eq_zero, Collection.size] at this ⊢
    omega
  unfold joining Collection.endpointSearch
  rw [if_neg (not_or.mpr ⟨not_not_intro hpositive, hsize⟩)]
  exact List.mem_filter.mpr ⟨hnet.wellFormed.collection.mem_candidates hstart hfinish h,
    (Collection.joinsAt_iff ..).mpr h⟩

/-- A polyline in a direction of travel has its ends near the first and the last stop, and the
pattern follows it closely enough. -/
structure Fits (m : Matcher R) (pattern : List (Vec3 R)) (first last : Vec3 R)
    (line : Polyline R) (score : R) : Prop where
  runs : line.runsBetween first last m.settings.maxDistance
  follows : Polyline.followDistance { points := pattern } line = .ok score
  inRange : score ≤ m.settings.maxDistance

/-- **No polyline is missed in the direction that its ends decide for.** If it fits a pattern in
that direction there is an answer, and one that is followed no less closely. -/
theorem exists_answer_of_fits [LawfulSign R] (hnet : m.network.Reachable)
    (hlength : 2 ≤ pattern.length) (hfirst : pattern.head? = some first)
    (hlast : pattern.getLast? = some last)
    (hstart : m.network.collection.WindowCovers first m.settings.maxDistance)
    (hfinish : m.network.collection.WindowCovers last m.settings.maxDistance)
    {id : Nat} {own line : Polyline R} {p q : Vec3 R} {score : R}
    (hget : m.network.collection.get? id = some own) (hends : own.ends? = some (p, q))
    (hline : line =
      if first.distance q + last.distance p < first.distance p + last.distance q
      then own.reversed else own)
    (hfits : m.Fits pattern first last line score) :
    ∃ answer, (m.matchPattern pattern).value = .ok (some answer) ∧
      answer.source = .endpoints ∧ answer.score ≤ score := by
  have hpicked : line = own.oriented first last :=
    hline.trans (Polyline.oriented_eq hends first last).symm
  have hmem : id ∈ m.joining first last := by
    obtain ⟨s, f, hline', hs, hf⟩ := (line.runsBetween_iff ..).mp hfits.runs
    obtain ⟨s', f', hown, hsame, -⟩ := own.exists_ends_oriented hends first last
    rw [← hpicked, hline'] at hown
    cases hown
    refine mem_joining_of_endsInRange hnet hstart hfinish ⟨own, p, q, hget, hends, ?_⟩
    rcases hsame with ⟨rfl, rfl⟩ | ⟨rfl, rfl⟩
    · exact Or.inl ⟨hs, hf⟩
    · exact Or.inr ⟨hs, hf⟩
  obtain ⟨best, shape, lowest, hclosest, hvalue⟩ :=
    exists_closest_of_joining hnet hlength hfirst hlast (List.ne_nil_of_mem hmem)
  have hle : lowest ≤ score := (hclosest.least id hmem own score hget (hpicked ▸ hfits.follows)).1
  rw [if_pos (LawfulOrder.le_trans hle hfits.inRange)] at hvalue
  exact ⟨_, hvalue, rfl, hle⟩

def loop : Polyline Float :=
  .ofLatLngs [⟨0.0, 0.0⟩, ⟨0.0, 0.01⟩, ⟨0.01, 0.005⟩, ⟨0.0, 0.0⟩] (some "Ring")

theorem fits_of_any {line : Polyline Float} {stops : List (Vec3 Float)} {first last : Vec3 Float}
    {m : Matcher Float} (hruns : line.runsBetween first last m.settings.maxDistance)
    (hany : (Polyline.followDistance { points := stops } line).toOption.any
      (· ≤ m.settings.maxDistance)) :
    ∃ score, m.Fits stops first last line score := by
  obtain ⟨score, hscore, hin⟩ := (Option.any_eq_true ..).mp hany
  cases hfollow : Polyline.followDistance { points := stops } line with
  | error e => simp [hfollow, Except.toOption] at hscore
  | ok s =>
    rw [hfollow] at hscore
    cases hscore
    exact ⟨_, hruns, hfollow, of_decide_eq_true hin⟩

theorem loop_exists_answer :
    ∃ score answer,
      (alone loop).Fits loop.points (.ofLatLng ⟨0.0, 0.0⟩) (.ofLatLng ⟨0.0, 0.0⟩) loop score ∧
      ((alone loop).matchPattern loop.points).value = .ok (some answer) ∧
      answer.source = .endpoints ∧ answer.score ≤ score := by
  have hcovers : (alone loop).network.collection.WindowCovers (.ofLatLng ⟨0.0, 0.0⟩)
      (alone loop).settings.maxDistance := by decide +kernel
  obtain ⟨score, hfits⟩ : ∃ score, (alone loop).Fits loop.points (.ofLatLng ⟨0.0, 0.0⟩)
      (.ofLatLng ⟨0.0, 0.0⟩) loop score := fits_of_any (by decide +kernel) (by decide +kernel)
  have hlength : 2 ≤ loop.points.length := by decide
  obtain ⟨answer, hanswer⟩ := exists_answer_of_fits (reachable_ofLines ..) hlength rfl rfl
    hcovers hcovers (get?_alone hlength) rfl (if_neg (Scalar.lt_irrefl _)).symm hfits
  exact ⟨score, answer, hfits, hanswer⟩

/-- A polyline in a direction of travel fits some pattern, and yet the pattern has no answer. -/
def Misses (m : Matcher R) (line : Polyline R) : Prop :=
  ∃ (stops : List (Vec3 R)) (first last : Vec3 R) (score : R), 2 ≤ stops.length ∧
    stops.head? = some first ∧ stops.getLast? = some last ∧ m.Fits stops first last line score ∧
    (∀ p ∈ stops, ∀ q ∈ line.points, ¬ IsNaN (p.distance q)) ∧
    ∀ answer, (m.matchPattern stops).value ≠ .ok (some answer)

/-- Two points without a direction. They are as near to one place as to any other, but filed under
one cell. -/
def origin : Polyline Float := ⟨[⟨0.0, 0.0, 0.0⟩, ⟨0.0, 0.0, 0.0⟩], none⟩

/-- A round trip is never tried backwards, and a polyline outside the window is not looked at. -/
theorem loop_and_origin_missed :
    (alone loop).network.Reachable ∧ (alone loop).network.collection.get? 0 = some loop ∧
      (alone loop).Misses loop.reversed ∧
    (alone origin).network.Reachable ∧ (alone origin).network.collection.get? 0 = some origin ∧
      (alone origin).Misses origin := by
  refine ⟨reachable_ofLines .., get?_alone (by decide), ?_, reachable_ofLines ..,
    get?_alone (by decide), ?_⟩
  · obtain ⟨score, hfits⟩ : ∃ score, (alone loop).Fits loop.reversed.points (.ofLatLng ⟨0.0, 0.0⟩)
        (.ofLatLng ⟨0.0, 0.0⟩) loop.reversed score :=
      fits_of_any (by decide +kernel) (by decide +kernel)
    exact ⟨_, _, _, score, by decide, rfl, rfl, hfits, by decide +kernel,
      not_ok_of_isNone (by decide +kernel)⟩
  · obtain ⟨score, hfits⟩ : ∃ score, (alone origin).Fits
        [.ofLatLng ⟨45.0, 40.0⟩, .ofLatLng ⟨45.0, 40.001⟩] (.ofLatLng ⟨45.0, 40.0⟩)
        (.ofLatLng ⟨45.0, 40.001⟩) origin score :=
      fits_of_any (by decide +kernel) (by decide +kernel)
    exact ⟨_, _, _, score, by decide, rfl, rfl, hfits, by decide +kernel,
      not_ok_of_isNone (by decide +kernel)⟩

end Matcher

end TransitShapes
