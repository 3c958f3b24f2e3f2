import Mathlib.Analysis.Real.Pi.Bounds
import TransitShapes.Collection.Cell
import TransitShapes.Proofs.Geometry.Normal
import TransitShapes.Proofs.Geometry.Places

/-! # A window of cells holds every point in range

A window reaches so far in latitude and longitude that no point within its distance is outside.
Cells are numbered in the order of their places, and longitudes again from the start after a whole
turn, so the cell of such a point is among those of the window.
-/

namespace TransitShapes

open Scalar

/-! ## Cell numbers -/

namespace Exact

variable {a b : ℝ}

theorem cellFloor_le_cellFloor (h : a ≤ b) : cellFloor a ≤ cellFloor b :=
  max_le_max_left _ (min_le_min_left _ (Int.floor_le_floor h))

theorem cellFloor_eq (h : |a| ≤ 2 ^ 62) : cellFloor a = ⌊a⌋ := by
  obtain ⟨hlow, hhigh⟩ := abs_le.mp h
  have hfloor : -2 ^ 63 ≤ ⌊a⌋ := Int.le_floor.mpr (by push_cast; linarith)
  have hceil : ⌊a⌋ ≤ 2 ^ 63 - 1 := by
    have hle : (⌊a⌋ : ℝ) ≤ ((2 ^ 63 - 1 : ℤ) : ℝ) := by
      push_cast
      linarith [Int.floor_le a]
    exact_mod_cast hle
  change max (-2 ^ 63) (min (2 ^ 63 - 1) ⌊a⌋) = ⌊a⌋
  rw [min_eq_right hceil, max_eq_right hfloor]

end Exact

namespace Cell

theorem perDegree_eq : (perDegree : ℝ) = 100 := by
  unfold perDegree
  norm_num

theorem latIndex_le_latIndex {a b : ℝ} (h : a ≤ b) : latIndex a ≤ latIndex b := by
  unfold latIndex
  rw [perDegree_eq]
  exact Exact.cellFloor_le_cellFloor (by linarith)

theorem lngPosition_le_lngPosition {a b : ℝ} (h : a ≤ b) : lngPosition a ≤ lngPosition b := by
  unfold lngPosition
  rw [perDegree_eq]
  exact Exact.cellFloor_le_cellFloor (by linarith)

theorem latIndex_eq {lat : ℝ} (h : |lat| ≤ 90) : latIndex lat = ⌊lat * 100⌋ := by
  unfold latIndex
  rw [perDegree_eq]
  apply Exact.cellFloor_eq
  rw [abs_le] at *
  constructor <;> linarith

theorem lngPosition_eq {lng : ℝ} (h : |lng| ≤ 360) : lngPosition lng = ⌊(lng + 180) * 100⌋ := by
  have hhalf : (180.0 : ℝ) = 180 := by norm_num
  unfold lngPosition
  rw [perDegree_eq, hhalf]
  apply Exact.cellFloor_eq
  rw [abs_le] at *
  constructor <;> linarith

theorem lngPosition_add_turns {lng : ℝ} {turns : ℤ} (h : |lng| ≤ 360)
    (hturned : |lng + 360 * turns| ≤ 360) :
    lngPosition (lng + 360 * turns) = lngPosition lng + turn * turns := by
  have hshift : (lng + 360 * turns + 180) * 100 = (lng + 180) * 100 + ((turn * turns : ℤ) : ℝ) := by
    unfold turn
    push_cast
    ring
  rw [lngPosition_eq h, lngPosition_eq hturned, hshift, Int.floor_add_intCast]

/-! ## Spans -/

theorem mem_span {low high n : ℤ} : n ∈ span low high ↔ low ≤ n ∧ n ≤ high := by
  unfold span
  rw [List.mem_map]
  constructor
  · rintro ⟨i, hi, rfl⟩
    rw [List.mem_range] at hi
    omega
  · rintro ⟨hlow, hhigh⟩
    exact ⟨(n - low).toNat, List.mem_range.mpr (by omega), by omega⟩

theorem length_span (low high : ℤ) : (span low high).length = (high - low + 1).toNat := by
  rw [span, List.length_map, List.length_range]

theorem nodup_span (low high : ℤ) : (span low high).Nodup := by
  apply List.nodup_range.map
  intro i j h
  dsimp only at h
  omega

theorem nodup_map_emod_turn {low high : ℤ} (h : high - low < turn) (lat : ℤ) :
    ((span low high).map fun lng => (⟨lat, lng % turn⟩ : Cell)).Nodup := by
  apply (nodup_span low high).map_on
  intro a ha b hb hsame
  rw [mem_span] at ha hb
  have hmod : a % turn = b % turn := congrArg Cell.lng hsame
  unfold turn at h hmod
  omega

/-! ## The cells of a window -/

namespace Window

variable {w : Window ℝ} {cells : List Cell}

/-- A window holds a place when the latitude is in reach, and the longitude is so after some number
of whole turns. -/
def Holds (w : Window ℝ) (place : LatLng ℝ) : Prop :=
  |place.lat - w.middle.lat| ≤ w.latReach ∧
    ∃ turns : ℤ, |place.lng + 360 * turns - w.middle.lng| ≤ w.lngReach

/-- The rows of a window. -/
noncomputable def lats (w : Window ℝ) : List Int :=
  span (latIndex (w.middle.lat - w.latReach)) (latIndex (w.middle.lat + w.latReach))

/-- The columns of a window, numbered on past the antimeridian. -/
noncomputable def lngs (w : Window ℝ) : List Int :=
  span (lngPosition (w.middle.lng - w.lngReach)) (lngPosition (w.middle.lng + w.lngReach))

theorem cells?_eq_some (h : w.cells? = some cells) :
    w.lats.length * w.lngs.length ≤ windowLimit ∧
      cells = w.lats.flatMap fun lat => w.lngs.map fun lng => ⟨lat, lng % turn⟩ := by
  unfold cells? at h
  simp only [Option.ite_none_left_eq_some, Option.some.injEq, not_lt] at h
  obtain ⟨hlimit, rfl⟩ := h
  refine ⟨?_, rfl⟩
  rw [lngs, length_span]
  exact hlimit

theorem Holds.ofPlace_mem {place : LatLng ℝ} (h : w.Holds place) (hcells : w.cells? = some cells)
    (hplace : |place.lng| ≤ 180) (hmiddle : |w.middle.lng| ≤ 180) (hreach : w.lngReach < 180) :
    ofPlace place ∈ cells := by
  obtain ⟨hlat, turns, hlng⟩ := h
  obtain ⟨-, rfl⟩ := cells?_eq_some hcells
  rw [abs_le] at hlat hlng
  have hturned : |place.lng + 360 * turns| ≤ 360 := by
    rw [abs_le] at hmiddle ⊢
    constructor <;> linarith
  have hrow : latIndex place.lat ∈ w.lats :=
    mem_span.mpr ⟨latIndex_le_latIndex (by linarith), latIndex_le_latIndex (by linarith)⟩
  have hcolumn : lngPosition (place.lng + 360 * turns) ∈ w.lngs :=
    mem_span.mpr
      ⟨lngPosition_le_lngPosition (by linarith), lngPosition_le_lngPosition (by linarith)⟩
  rw [lngPosition_add_turns (by linarith) hturned] at hcolumn
  refine List.mem_flatMap.mpr ⟨_, hrow, List.mem_map.mpr ⟨_, hcolumn, ?_⟩⟩
  rw [Int.add_mul_emod_self_left]
  rfl

theorem length_cells (h : w.cells? = some cells) :
    cells.length = w.lats.length * w.lngs.length := by
  obtain ⟨-, rfl⟩ := cells?_eq_some h
  simp

theorem length_lats_pos (h : 0 ≤ w.latReach) : 0 < w.lats.length :=
  List.length_pos_of_mem (a := latIndex w.middle.lat) <| mem_span.mpr
    ⟨latIndex_le_latIndex (by linarith), latIndex_le_latIndex (by linarith)⟩

theorem length_lngs_pos (h : 0 ≤ w.lngReach) : 0 < w.lngs.length :=
  List.length_pos_of_mem (a := lngPosition w.middle.lng) <| mem_span.mpr
    ⟨lngPosition_le_lngPosition (by linarith), lngPosition_le_lngPosition (by linarith)⟩

theorem nodup_cells (h : w.cells? = some cells) (hlat : 0 ≤ w.latReach) : cells.Nodup := by
  obtain ⟨hlimit, rfl⟩ := cells?_eq_some h
  have hcolumns : w.lngs.length ≤ 64 :=
    (Nat.le_mul_of_pos_left _ (length_lats_pos hlat)).trans hlimit
  rw [lngs, length_span] at hcolumns
  refine List.nodup_flatMap.mpr ⟨fun lat _ => nodup_map_emod_turn (by unfold turn; omega) lat, ?_⟩
  -- Two rows have no cell in common, as all cells of a row have its number.
  refine (nodup_span _ _).imp fun {a b} hne => ?_
  rintro cell hcell hother
  obtain ⟨lng, -, rfl⟩ := List.mem_map.mp hcell
  obtain ⟨other, -, hsame⟩ := List.mem_map.mp hother
  exact hne (congrArg Cell.lat hsame).symm

theorem lng_of_mem_cells (h : w.cells? = some cells) {cell : Cell} (hcell : cell ∈ cells) :
    0 ≤ cell.lng ∧ cell.lng < turn := by
  obtain ⟨-, rfl⟩ := cells?_eq_some h
  obtain ⟨lat, -, hrow⟩ := List.mem_flatMap.mp hcell
  obtain ⟨lng, -, rfl⟩ := List.mem_map.mp hrow
  exact ⟨Int.emod_nonneg _ (by decide), Int.emod_lt_of_pos _ (by decide)⟩

end Window

/-! ## The window around a point -/

variable {p q : Vec3 ℝ} {maxDistance : ℝ} {w : Window ℝ}

theorem padding_pos : 0 < (padding : ℝ) := by
  unfold padding
  norm_num

theorem Window.around?_eq_some_iff : around? p maxDistance = some w ↔
    |toDegrees p.latitude| + (toDegrees (maxDistance / globeRadius) + padding) < 89 ∧
      (Real.sin (maxDistance / globeRadius) / Real.cos p.latitude < 1 ∧
        maxDistance / globeRadius < Real.pi / 2) ∧
      toDegrees (Real.arcsin (Real.sin (maxDistance / globeRadius) / Real.cos p.latitude)) +
        padding < 180 ∧
      w = ⟨p.toLatLng, toDegrees (maxDistance / globeRadius) + padding, toDegrees (Real.arcsin
        (Real.sin (maxDistance / globeRadius) / Real.cos p.latitude)) + padding⟩ := by
  have hlat : toRadians p.toLatLng.lat = p.latitude := Exact.toRadians_toDegrees _
  have hpole : (polarLatitude : ℝ) = 89 := by
    unfold polarLatitude
    norm_num
  have hone : (1.0 : ℝ) = 1 := by norm_num
  have htwo : (2.0 : ℝ) = 2 := by norm_num
  have hhalf : (180.0 : ℝ) = 180 := by norm_num
  unfold around?
  simp only [Option.ite_none_left_eq_some, Option.some.injEq, not_le, not_or, not_not, hlat, hpole,
    hone, htwo, hhalf, Exact.abs_eq]
  exact and_congr_right' (and_congr_right' (and_congr_right' eq_comm))

theorem Window.abs_latitude_add_lt (h : around? p maxDistance = some w) :
    |p.latitude| + maxDistance / globeRadius < Real.pi / 2 := by
  have hpolar := (around?_eq_some_iff.mp h).1
  have hquarter : toDegrees (Real.pi / 2) = 90 := by
    rw [Exact.toDegrees_eq]
    field_simp
    norm_num
  rw [← Exact.toDegrees_lt_toDegrees, Exact.toDegrees_add, hquarter, ← Exact.abs_toDegrees]
  linarith [padding_pos]

theorem Window.latReach_pos (hm : 0 ≤ maxDistance) (h : around? p maxDistance = some w) :
    0 < w.latReach := by
  obtain ⟨-, -, -, rfl⟩ := around?_eq_some_iff.mp h
  exact add_pos_of_nonneg_of_pos
    (Exact.toDegrees_nonneg (div_nonneg hm Vec3.globeRadius_pos.le)) padding_pos

theorem Window.lngReach_pos (hm : 0 ≤ maxDistance) (h : around? p maxDistance = some w) :
    0 < w.lngReach := by
  have hpole := abs_latitude_add_lt h
  obtain ⟨-, -, -, rfl⟩ := around?_eq_some_iff.mp h
  have hangular : 0 ≤ maxDistance / globeRadius := div_nonneg hm Vec3.globeRadius_pos.le
  have hsin : 0 ≤ Real.sin (maxDistance / globeRadius) :=
    Real.sin_nonneg_of_nonneg_of_le_pi hangular
      (by linarith [abs_nonneg p.latitude, Real.pi_pos])
  exact add_pos_of_nonneg_of_pos
    (Exact.toDegrees_nonneg (Real.arcsin_nonneg.mpr (div_nonneg hsin p.cos_latitude_nonneg)))
    padding_pos

theorem Window.holds_of_distance_le (hp : p ≠ ⟨0, 0, 0⟩) (hq : q ≠ ⟨0, 0, 0⟩)
    (h : around? p maxDistance = some w) (hdistance : p.distance q ≤ maxDistance) :
    w.Holds q.toLatLng := by
  have hpole := abs_latitude_add_lt h
  have hangle : p.angle q ≤ maxDistance / globeRadius :=
    (le_div_iff₀ Vec3.globeRadius_pos).mpr hdistance
  obtain ⟨turns, hturns⟩ := Vec3.exists_turns hp hq hangle hpole
  obtain ⟨-, -, -, rfl⟩ := around?_eq_some_iff.mp h
  constructor
  · have hlat := Exact.toDegrees_le_toDegrees.mpr ((Vec3.abs_latitude_sub_le hp hq).trans hangle)
    rw [← Exact.abs_toDegrees, Exact.toDegrees_sub] at hlat
    exact hlat.trans (le_add_of_nonneg_right padding_pos.le)
  · have hlng := Exact.toDegrees_le_toDegrees.mpr hturns
    rw [← Exact.abs_toDegrees, Exact.toDegrees_sub, Exact.toDegrees_add, Exact.toDegrees_turns]
      at hlng
    exact ⟨turns, hlng.trans (le_add_of_nonneg_right padding_pos.le)⟩

theorem abs_lng_le (v : Vec3 ℝ) : |v.toLatLng.lng| ≤ 180 := by
  have h := Exact.toDegrees_le_toDegrees.mpr v.abs_longitude_le
  rwa [← Exact.abs_toDegrees, Exact.toDegrees_pi] at h

theorem window?_eq_some {cells : List Cell} (h : window? p maxDistance = some cells) :
    ∃ w, Window.around? p maxDistance = some w ∧ w.cells? = some cells :=
  Option.bind_eq_some_iff.mp h

/-! ## A window across the antimeridian -/

theorem exists_around?_antimeridian : ∃ reach : ℝ, 0 < reach ∧ reach < 0.01 ∧
    Window.around? ⟨-1, 0, 0⟩ 1 = some ⟨⟨0, 180⟩, reach, reach⟩ := by
  have hlat : (⟨-1, 0, 0⟩ : Vec3 ℝ).latitude = 0 :=
    Complex.arg_ofReal_of_nonneg (Vec3.nonneg_ringRadius _)
  have hlng : (⟨-1, 0, 0⟩ : Vec3 ℝ).longitude = Real.pi := Complex.arg_ofReal_of_neg (by norm_num)
  have hpos : 0 < 1 / (globeRadius : ℝ) := one_div_pos.mpr Vec3.globeRadius_pos
  have hlt : 1 / (globeRadius : ℝ) < 0.0001 := by
    unfold globeRadius
    norm_num
  have hdegrees : toDegrees (1 / (globeRadius : ℝ)) < 0.006 :=
    calc toDegrees (1 / (globeRadius : ℝ))
        = 1 / globeRadius * (180 / Real.pi) := Exact.toDegrees_eq _
      _ ≤ 1 / globeRadius * (180 / 3) := by
          gcongr
          exact Real.pi_gt_three.le
      _ < 0.006 := by linarith
  have hspread : Real.arcsin (Real.sin (1 / globeRadius)) = 1 / globeRadius :=
    Real.arcsin_sin (by linarith [Real.pi_gt_three]) (by linarith [Real.pi_gt_three])
  have hpadding : (padding : ℝ) < 0.001 := by
    unfold padding
    norm_num
  refine ⟨toDegrees (1 / globeRadius) + padding, ?_, by linarith, ?_⟩
  · exact add_pos_of_nonneg_of_pos (Exact.toDegrees_nonneg hpos.le) padding_pos
  · rw [Window.around?_eq_some_iff, Vec3.toLatLng_eq, hlat, hlng, Exact.toDegrees_zero,
      Exact.toDegrees_pi, Real.cos_zero, div_one, abs_zero, hspread]
    refine ⟨by linarith, ⟨?_, by linarith [Real.pi_gt_three]⟩, by linarith, rfl⟩
    exact (Real.sin_le hpos.le).trans_lt (by linarith)

theorem cells?_antimeridian {reach : ℝ} (hpos : 0 < reach) (hlt : reach < 0.01) :
    Window.cells? ⟨⟨0, 180⟩, reach, reach⟩ = some [⟨-1, 35999⟩, ⟨-1, 0⟩, ⟨0, 35999⟩, ⟨0, 0⟩] := by
  have hsouth : latIndex (0 - reach) = -1 := by
    rw [latIndex_eq (abs_le.mpr ⟨by linarith, by linarith⟩), Int.floor_eq_iff]
    constructor <;> norm_num <;> linarith
  have hnorth : latIndex (0 + reach) = 0 := by
    rw [latIndex_eq (abs_le.mpr ⟨by linarith, by linarith⟩), Int.floor_eq_iff]
    constructor <;> norm_num <;> linarith
  have hwest : lngPosition (180 - reach) = 35999 := by
    rw [lngPosition_eq (abs_le.mpr ⟨by linarith, by linarith⟩), Int.floor_eq_iff]
    constructor <;> norm_num <;> linarith
  have heast : lngPosition (180 + reach) = 36000 := by
    rw [lngPosition_eq (abs_le.mpr ⟨by linarith, by linarith⟩), Int.floor_eq_iff]
    constructor <;> norm_num <;> linarith
  unfold Window.cells?
  simp only [hsouth, hnorth, hwest, heast]
  decide

theorem window?_antimeridian :
    window? (⟨-1, 0, 0⟩ : Vec3 ℝ) 1 = some [⟨-1, 35999⟩, ⟨-1, 0⟩, ⟨0, 35999⟩, ⟨0, 0⟩] := by
  obtain ⟨reach, hpos, hlt, haround⟩ := exists_around?_antimeridian
  unfold window?
  rw [haround]
  exact cells?_antimeridian hpos hlt

/-! ## What a window covers -/

/-- Every point in range is in a cell of the window. The cells are few, each is there once, and
their longitudes are numbered within one turn. -/
theorem window?_covers {cells : List Cell} (hp : p ≠ ⟨0, 0, 0⟩) (hm : 0 ≤ maxDistance)
    (h : window? p maxDistance = some cells) :
    (∀ q : Vec3 ℝ, q ≠ ⟨0, 0, 0⟩ → p.distance q ≤ maxDistance → ofPoint q ∈ cells) ∧
      1 ≤ cells.length ∧ cells.length ≤ 64 ∧ cells.Nodup ∧
      ∀ cell ∈ cells, 0 ≤ cell.lng ∧ cell.lng < 36000 := by
  obtain ⟨w, haround, hcells⟩ := window?_eq_some h
  have hlat := Window.latReach_pos hm haround
  have hlng := Window.lngReach_pos hm haround
  obtain ⟨-, -, hreach, rfl⟩ := Window.around?_eq_some_iff.mp haround
  refine ⟨?_, ?_, ?_, Window.nodup_cells hcells hlat.le, fun _ => Window.lng_of_mem_cells hcells⟩
  · intro q hq hdistance
    exact (Window.holds_of_distance_le hp hq haround hdistance).ofPlace_mem hcells (abs_lng_le q)
      (abs_lng_le p) hreach
  · rw [Window.length_cells hcells]
    exact Nat.mul_pos (Window.length_lats_pos hlat.le) (Window.length_lngs_pos hlng.le)
  · rw [Window.length_cells hcells]
    exact (Window.cells?_eq_some hcells).1

theorem window?_covers_antimeridian : ∃ cells,
    window? (⟨-1, 0, 0⟩ : Vec3 ℝ) 1 = some cells ∧
      (∀ q : Vec3 ℝ, q ≠ ⟨0, 0, 0⟩ → (⟨-1, 0, 0⟩ : Vec3 ℝ).distance q ≤ 1 → ofPoint q ∈ cells) ∧
      1 ≤ cells.length ∧ cells.length ≤ 64 ∧ cells.Nodup ∧
      ∀ cell ∈ cells, 0 ≤ cell.lng ∧ cell.lng < 36000 :=
  ⟨_, window?_antimeridian, window?_covers (by simp) zero_le_one window?_antimeridian⟩

end Cell

end TransitShapes
