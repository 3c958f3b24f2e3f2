import TransitShapes.Proofs.Collection.Search
import TransitShapes.Proofs.Collection.Window
import TransitShapes.Proofs.Scalar.Angles

/-! # A polyline is found by its own ends

The cell of a point and the window around it are computed and rounded in different ways. Every step
of either keeps the order of values, and a window reaches no less than nothing to each side, so it
holds the cell of its middle.
-/

namespace TransitShapes

open Scalar

variable {R : Type} [Scalar R]

namespace Cell

variable {p : Vec3 R} {maxDistance : R}

/-! ## What a window is made of -/

/-- The sine of how far the window around a point reaches in longitude. -/
def spread (p : Vec3 R) (maxDistance : R) : R :=
  sin (maxDistance / globeRadius) / cos (toRadians p.toLatLng.lat)

namespace Window

variable {w : Window R} {cells : List Cell}

theorem of_around? (h : around? p maxDistance = some w) :
    ¬ polarLatitude ≤ Scalar.abs p.toLatLng.lat + w.latReach ∧
      (spread p maxDistance < 1.0 ∧ ¬ pi / 2.0 ≤ maxDistance / globeRadius) ∧
      ¬ 180.0 ≤ w.lngReach ∧
      w = ⟨p.toLatLng, toDegrees (maxDistance / globeRadius) + padding,
        toDegrees (asin (spread p maxDistance)) + padding⟩ := by
  unfold around? at h
  simp only [Option.ite_none_left_eq_some, Option.some.injEq, not_or, not_not] at h
  obtain ⟨hpole, hturn, hlng, rfl⟩ := h
  exact ⟨hpole, hturn, hlng, rfl⟩

theorem middle_of_around? (h : around? p maxDistance = some w) : w.middle = p.toLatLng := by
  obtain ⟨-, -, -, rfl⟩ := of_around? h
  rfl

theorem ofPlace_mem_of_span (h : w.cells? = some cells)
    (hlat : latIndex w.middle.lat ∈
      span (latIndex (w.middle.lat - w.latReach)) (latIndex (w.middle.lat + w.latReach)))
    (hlng : lngPosition w.middle.lng ∈
      span (lngPosition (w.middle.lng - w.lngReach)) (lngPosition (w.middle.lng + w.lngReach))) :
    ofPlace w.middle ∈ cells := by
  unfold cells? at h
  simp only [Option.ite_none_left_eq_some, Option.some.injEq] at h
  obtain ⟨-, rfl⟩ := h
  exact List.mem_flatMap.mpr ⟨_, hlat, List.mem_map.mpr ⟨_, hlng, rfl⟩⟩

end Window

/-! ## The arithmetic of windows -/

/-- Arithmetic that keeps the order of values and the signs of angles, in which the numbers that
windows are made of are finite and have the signs they should have. -/
class LawfulWindow (R : Type) [Scalar R] : Prop extends LawfulMonotone R, LawfulQuotient R,
    LawfulFloor R, LawfulAngles R where
  perDegree_pos : 0.0 < (perDegree : R)
  isFinite_perDegree : isFinite (perDegree : R)
  isFinite_halfTurn : isFinite (180.0 : R)
  toRadians_pos : 0.0 < (pi / 180.0 : R)
  isFinite_toRadians : isFinite (pi / 180.0 : R)
  toDegrees_pos : 0.0 < (180.0 / pi : R)
  isFinite_toDegrees : isFinite (180.0 / pi : R)
  isFinite_padding : isFinite (padding : R)
  reach_zero : 0.0 ≤ toDegrees (0.0 : R) + padding
  isFinite_reach : isFinite (toDegrees (pi / 2.0 : R) + padding)
  polar_le : toRadians (polarLatitude : R) ≤ pi / 2.0
  le_polar : -(pi / 2.0) ≤ toRadians (-polarLatitude : R)

instance : LawfulWindow Float where
  perDegree_pos := by decide +kernel
  isFinite_perDegree := by decide +kernel
  isFinite_halfTurn := by decide +kernel
  toRadians_pos := by decide +kernel
  isFinite_toRadians := by decide +kernel
  toDegrees_pos := by decide +kernel
  isFinite_toDegrees := by decide +kernel
  isFinite_padding := by decide +kernel
  reach_zero := by decide +kernel
  isFinite_reach := by decide +kernel
  polar_le := by decide +kernel
  le_polar := by decide +kernel

variable [LawfulWindow R] {a b reach : R}

theorem toRadians_mono (h : a ≤ b) : toRadians a ≤ toRadians b :=
  LawfulMonotone.mul_le_mul_right LawfulWindow.isFinite_toRadians LawfulWindow.toRadians_pos h

theorem reach_mono (h : a ≤ b) : toDegrees a + padding ≤ toDegrees b + padding :=
  LawfulMonotone.add_le_add_right LawfulWindow.isFinite_padding <|
    LawfulMonotone.mul_le_mul_right LawfulWindow.isFinite_toDegrees LawfulWindow.toDegrees_pos h

theorem reach_nonneg (h : 0.0 ≤ a) : 0.0 ≤ toDegrees a + padding :=
  LawfulOrder.le_trans LawfulWindow.reach_zero (reach_mono h)

theorem latIndex_mono (h : a ≤ b) : latIndex a ≤ latIndex b :=
  LawfulFloor.cellFloor_le <|
    LawfulMonotone.mul_le_mul_right LawfulWindow.isFinite_perDegree LawfulWindow.perDegree_pos h

theorem lngPosition_mono (h : a ≤ b) : lngPosition a ≤ lngPosition b :=
  LawfulFloor.cellFloor_le <|
    LawfulMonotone.mul_le_mul_right LawfulWindow.isFinite_perDegree LawfulWindow.perDegree_pos <|
      LawfulMonotone.add_le_add_right LawfulWindow.isFinite_halfTurn h

theorem lngPosition_of_isNaN (h : IsNaN a) : lngPosition a = 0 :=
  LawfulFloor.cellFloor_of_isNaN (LawfulNaN.isNaN_mul _ (LawfulNaN.isNaN_add (Or.inl h)))

theorem latIndex_mem_span (ha : ¬ IsNaN a) (hfinite : isFinite reach) (hnonneg : 0.0 ≤ reach) :
    latIndex a ∈ span (latIndex (a - reach)) (latIndex (a + reach)) :=
  mem_span.mpr ⟨latIndex_mono (LawfulMonotone.sub_le ha hfinite hnonneg),
    latIndex_mono (LawfulMonotone.le_add ha hfinite hnonneg)⟩

theorem lngPosition_mem_span (hfinite : isFinite reach) (hnonneg : 0.0 ≤ reach) :
    lngPosition a ∈ span (lngPosition (a - reach)) (lngPosition (a + reach)) := by
  rw [mem_span]
  by_cases ha : IsNaN a
  · rw [lngPosition_of_isNaN ha, lngPosition_of_isNaN (LawfulMonotone.isNaN_sub _ ha),
      lngPosition_of_isNaN (LawfulNaN.isNaN_add (Or.inl ha))]
    exact ⟨Int.le_refl 0, Int.le_refl 0⟩
  · exact ⟨lngPosition_mono (LawfulMonotone.sub_le ha hfinite hnonneg),
      lngPosition_mono (LawfulMonotone.le_add ha hfinite hnonneg)⟩

/-! ## How far a window reaches -/

theorem not_isNaN_of_spread (h : spread p maxDistance < 1.0) :
    ¬ IsNaN p.toLatLng.lat ∧ ¬ IsNaN (maxDistance / globeRadius) := by
  have ⟨hspread, _⟩ := LawfulOrder.isNumber_of_le (le_of_lt h)
  refine ⟨fun hlat => hspread (LawfulQuotient.isNaN_div (Or.inr ?_)),
    fun hangular => hspread (LawfulQuotient.isNaN_div (Or.inl ?_))⟩
  · exact LawfulAngles.isNaN_cos (LawfulNaN.isNaN_mul _ hlat)
  · exact LawfulAngles.isNaN_sin hangular

theorem not_isNaN_polarLatitude : ¬ IsNaN (polarLatitude : R) := fun h =>
  (LawfulOrder.isNumber_of_le LawfulWindow.polar_le).1 (LawfulNaN.isNaN_mul _ h)

theorem unsigned_cos_of_abs_le (h : Scalar.abs a ≤ polarLatitude) :
    Unsigned (cos (toRadians a)) := by
  have ⟨hlow, hhigh⟩ := abs_le h
  exact LawfulAngles.unsigned_cos
    (LawfulOrder.le_trans LawfulWindow.le_polar (toRadians_mono hlow))
    (LawfulOrder.le_trans (toRadians_mono hhigh) LawfulWindow.polar_le)

namespace Window

variable {w : Window R}

theorem angular_le (h : around? p maxDistance = some w) :
    maxDistance / globeRadius ≤ pi / 2.0 := by
  obtain ⟨-, ⟨hspread, hquarter⟩, -⟩ := of_around? h
  exact le_of_not_le (LawfulOrder.isNumber_of_le LawfulWindow.polar_le).2
    (not_isNaN_of_spread hspread).2 hquarter

theorem angular_nonneg (hm : 0.0 ≤ maxDistance) (h : around? p maxDistance = some w) :
    0.0 ≤ maxDistance / globeRadius := by
  obtain ⟨-, ⟨hspread, -⟩, -⟩ := of_around? h
  exact LawfulQuotient.div_nonneg hm LawfulSign.unsigned_globeRadius (not_isNaN_of_spread hspread).2

theorem latReach_nonneg (hm : 0.0 ≤ maxDistance) (h : around? p maxDistance = some w) :
    0.0 ≤ w.latReach := by
  have hangular := angular_nonneg hm h
  obtain ⟨-, -, -, rfl⟩ := of_around? h
  exact reach_nonneg hangular

theorem isFinite_latReach (hm : 0.0 ≤ maxDistance) (h : around? p maxDistance = some w) :
    isFinite w.latReach := by
  have hnonneg := latReach_nonneg hm h
  have hle := angular_le h
  obtain ⟨-, -, -, rfl⟩ := of_around? h
  exact LawfulMonotone.isFinite_of_le hnonneg (reach_mono hle) LawfulWindow.isFinite_reach

theorem abs_lat_le (hm : 0.0 ≤ maxDistance) (h : around? p maxDistance = some w) :
    Scalar.abs p.toLatLng.lat ≤ polarLatitude := by
  obtain ⟨hpole, ⟨hspread, -⟩, -⟩ := of_around? h
  have hle := LawfulMonotone.le_add (not_isNaN_abs (not_isNaN_of_spread hspread).1)
    (isFinite_latReach hm h) (latReach_nonneg hm h)
  exact LawfulOrder.le_trans hle
    (le_of_not_le not_isNaN_polarLatitude (LawfulOrder.isNumber_of_le hle).2 hpole)

theorem lngReach_nonneg (hm : 0.0 ≤ maxDistance) (h : around? p maxDistance = some w) :
    0.0 ≤ w.lngReach := by
  have hsin := LawfulAngles.sin_nonneg (angular_nonneg hm h) (angular_le h)
  have hcos := unsigned_cos_of_abs_le (abs_lat_le hm h)
  obtain ⟨-, ⟨hspread, -⟩, -, rfl⟩ := of_around? h
  have hnonneg := LawfulQuotient.div_nonneg hsin hcos
    (LawfulOrder.isNumber_of_le (le_of_lt hspread)).1
  exact reach_nonneg (LawfulAngles.asin_nonneg hnonneg (le_of_lt hspread))

theorem isFinite_lngReach (hm : 0.0 ≤ maxDistance) (h : around? p maxDistance = some w) :
    isFinite w.lngReach := by
  have hnonneg := lngReach_nonneg hm h
  obtain ⟨-, -, hturn, -⟩ := of_around? h
  exact LawfulMonotone.isFinite_of_le hnonneg
    (le_of_not_le (LawfulMonotone.not_isNaN_of_isFinite LawfulWindow.isFinite_halfTurn)
      (LawfulOrder.isNumber_of_le hnonneg).2 hturn)
    LawfulWindow.isFinite_halfTurn

end Window

theorem ofPoint_mem_of_window? (hm : 0.0 ≤ maxDistance) {cells : List Cell}
    (h : window? p maxDistance = some cells) : ofPoint p ∈ cells := by
  obtain ⟨w, haround, hcells⟩ := Option.bind_eq_some_iff.mp h
  have hmiddle := Window.middle_of_around? haround
  obtain ⟨-, ⟨hspread, -⟩, -⟩ := Window.of_around? haround
  have hlat := (not_isNaN_of_spread hspread).1
  rw [← hmiddle] at hlat
  unfold ofPoint
  rw [← hmiddle]
  exact Window.ofPlace_mem_of_span hcells
    (latIndex_mem_span hlat (Window.isFinite_latReach hm haround)
      (Window.latReach_nonneg hm haround))
    (lngPosition_mem_span (Window.isFinite_lngReach hm haround)
      (Window.lngReach_nonneg hm haround))

end Cell

/-! ## The search -/

namespace Collection

variable [Cell.LawfulWindow R] {c : Collection R}

/-- **A polyline is found by its own ends**, there and back, on whichever of the two ways and for
any distance from zero on. Nothing is asked of the ends but to be at no distance from
themselves. -/
theorem Reachable.endpointSearch_own_ends (hc : Reachable c) {id : Nat} {line : Polyline R}
    {first last : Vec3 R} (hget : c.get? id = some line) (hends : line.ends? = some (first, last))
    (hfirst : IsZero (first.distance first)) (hlast : IsZero (last.distance last))
    {maxDistance : R} (hm : 0.0 ≤ maxDistance) :
    id ∈ (c.endpointSearch first last maxDistance).value ∧
      id ∈ (c.endpointSearch last first maxDistance).value := by
  have hnear := LawfulOrder.le_trans hfirst.1 hm
  have hfar := LawfulOrder.le_trans hlast.1 hm
  rw [mem_endpointSearch, mem_endpointSearch]
  refine ⟨⟨hm, ?_, line, first, last, hget, hends, Or.inl ⟨hnear, hfar⟩⟩,
    ⟨hm, ?_, line, first, last, hget, hends, Or.inr ⟨hfar, hnear⟩⟩⟩
  · exact hc.wellFormed.mem_candidates_of_mem hget hends (Or.inl rfl)
      (fun _ => Cell.ofPoint_mem_of_window? hm) fun _ => Cell.ofPoint_mem_of_window? hm
  · exact hc.wellFormed.mem_candidates_of_mem hget hends (Or.inr rfl)
      (fun _ => Cell.ofPoint_mem_of_window? hm) fun _ => Cell.ofPoint_mem_of_window? hm

/-- A polyline from the origin, which has no direction, to a point above the antimeridian. -/
def fromOrigin : Collection Float :=
  ({} : Collection Float).after ⟨[⟨0.0, 0.0, 0.0⟩, ⟨-2.0, 0.0, 1.0⟩], none⟩ .smart

theorem fromOrigin_endpointSearch_own_ends :
    Reachable fromOrigin ∧
      (fromOrigin.candidates ⟨0.0, 0.0, 0.0⟩ ⟨-2.0, 0.0, 1.0⟩ 0.0).log = [] ∧
      (fromOrigin.candidates ⟨0.0, 0.0, 0.0⟩ ⟨-2.0, 0.0, 1.0⟩ (1.0 / 0.0)).log ≠ [] ∧
      0 ∈ (fromOrigin.endpointSearch ⟨0.0, 0.0, 0.0⟩ ⟨-2.0, 0.0, 1.0⟩ 0.0).value ∧
      0 ∈ (fromOrigin.endpointSearch ⟨-2.0, 0.0, 1.0⟩ ⟨0.0, 0.0, 0.0⟩ (1.0 / 0.0)).value := by
  have hreach : Reachable fromOrigin := .add _ _ .empty
  have hfirst : IsZero ((⟨0.0, 0.0, 0.0⟩ : Vec3 Float).distance ⟨0.0, 0.0, 0.0⟩) := by
    decide +kernel
  have hlast : IsZero ((⟨-2.0, 0.0, 1.0⟩ : Vec3 Float).distance ⟨-2.0, 0.0, 1.0⟩) := by
    decide +kernel
  exact ⟨hreach, by decide +kernel, by decide +kernel,
    (hreach.endpointSearch_own_ends rfl rfl hfirst hlast (by decide +kernel)).1,
    (hreach.endpointSearch_own_ends rfl rfl hfirst hlast (by decide +kernel)).2⟩

end Collection

end TransitShapes
