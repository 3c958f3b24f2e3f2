import TransitShapes.Collection.Search
import TransitShapes.Proofs.Ascending
import TransitShapes.Proofs.Collection.Invariant
import TransitShapes.Proofs.Scalar.Double

/-! # The search by ends finds what a look at every polyline finds

A search looks at few polylines or at all of them. Both ways keep the same ones, as long as a window
holds the cells of all the ends that are in range.
-/

namespace TransitShapes

open Scalar

variable {R : Type}

theorem Collection.mem_filed {c : Collection R} {starts finishes : List Cell} {id : Nat} :
    id ∈ c.filed starts finishes ↔
      ∃ start ∈ starts, ∃ finish ∈ finishes, id ∈ c.bucket ⟨start, finish⟩ := by
  simp only [filed, Ascending.mem_distinct, List.mem_flatMap]

theorem Collection.not_isEmpty_of_get? {c : Collection R} {id : Nat} {line : Polyline R}
    (h : c.get? id = some line) : ¬ c.isEmpty := by
  have hlt := Collection.lt_size_of_get? h
  simp only [Collection.isEmpty, Collection.size, Array.isEmpty_iff_size_eq_zero] at hlt ⊢
  omega

variable [Scalar R]

namespace Polyline

theorem runsBetween_iff (line : Polyline R) (start finish : Vec3 R) (maxDistance : R) :
    line.runsBetween start finish maxDistance ↔ ∃ first last, line.ends? = some (first, last) ∧
      start.distance first ≤ maxDistance ∧ finish.distance last ≤ maxDistance := by
  unfold runsBetween
  rw [Option.any_eq_true]
  constructor
  · rintro ⟨⟨first, last⟩, hends, hin⟩
    exact ⟨first, last, hends, by simpa using hin⟩
  · rintro ⟨first, last, hends, hin⟩
    exact ⟨(first, last), hends, by simpa using hin⟩

end Polyline

namespace Collection

/-- A stored polyline has its ends in range of two places, in one direction or the other. -/
def EndsInRange (c : Collection R) (start finish : Vec3 R) (maxDistance : R) (id : Nat) : Prop :=
  ∃ line first last, c.get? id = some line ∧ line.ends? = some (first, last) ∧
    (start.distance first ≤ maxDistance ∧ finish.distance last ≤ maxDistance ∨
      start.distance last ≤ maxDistance ∧ finish.distance first ≤ maxDistance)

theorem joinsAt_iff (c : Collection R) (start finish : Vec3 R) (maxDistance : R) (id : Nat) :
    c.joinsAt start finish maxDistance id ↔ c.EndsInRange start finish maxDistance id := by
  unfold joinsAt EndsInRange
  rw [Option.any_eq_true]
  refine exists_congr fun line => ?_
  rw [Polyline.joins, Bool.or_eq_true, Polyline.runsBetween_iff, Polyline.runsBetween_iff]
  constructor
  · rintro ⟨hget, ⟨first, last, hends, hstart, hfinish⟩ | ⟨first, last, hends, hfinish, hstart⟩⟩
    · exact ⟨first, last, hget, hends, Or.inl ⟨hstart, hfinish⟩⟩
    · exact ⟨first, last, hget, hends, Or.inr ⟨hstart, hfinish⟩⟩
  · rintro ⟨first, last, hget, hends, ⟨hstart, hfinish⟩ | ⟨hstart, hfinish⟩⟩
    · exact ⟨hget, Or.inl ⟨first, last, hends, hstart, hfinish⟩⟩
    · exact ⟨hget, Or.inr ⟨first, last, hends, hfinish, hstart⟩⟩

/-- The window around a place, where there is one, holds the cells of all stored ends in range. -/
def WindowCovers (c : Collection R) (p : Vec3 R) (maxDistance : R) : Prop :=
  ∀ id line ends cells, c.get? id = some line → line.ends? = some ends →
    Cell.window? p maxDistance = some cells → ∀ q, q = ends.1 ∨ q = ends.2 →
      p.distance q ≤ maxDistance → Cell.ofPoint q ∈ cells

theorem windowCovers_iff (c : Collection R) (p : Vec3 R) (maxDistance : R) :
    c.WindowCovers p maxDistance ↔ ∀ line ∈ c.lines, ∀ ends ∈ line.ends?,
      ∀ cells ∈ Cell.window? p maxDistance, ∀ q ∈ [ends.1, ends.2],
        p.distance q ≤ maxDistance → Cell.ofPoint q ∈ cells := by
  constructor
  · intro h line hline ends hends cells hcells q hq hin
    obtain ⟨id, hget⟩ := Array.mem_iff_getElem?.mp hline
    exact h id line ends cells hget hends hcells q (by simpa using hq) hin
  · intro h id line ends cells hget hends hcells q hq hin
    exact h line (Array.mem_of_getElem? hget) ends hends cells hcells q (by simpa using hq) hin

instance (c : Collection R) (p : Vec3 R) (maxDistance : R) :
    Decidable (c.WindowCovers p maxDistance) :=
  decidable_of_iff _ (c.windowCovers_iff p maxDistance).symm

/-! ## What a search looks at -/

theorem candidates_sorted (c : Collection R) (start finish : Vec3 R) (maxDistance : R) :
    (c.candidates start finish maxDistance).value.Pairwise (· < ·) := by
  unfold candidates
  split
  · exact Ascending.distinct_sorted _
  · exact List.pairwise_lt_range

theorem WellFormed.mem_candidates_of_mem {c : Collection R} (hc : WellFormed c)
    {start finish : Vec3 R} {maxDistance : R} {id : Nat} {line : Polyline R}
    {ends : Vec3 R × Vec3 R} (hget : c.get? id = some line) (hends : line.ends? = some ends)
    {near far : Vec3 R} (hor : (near, far) = ends ∨ (far, near) = ends)
    (hstart : ∀ cells, Cell.window? start maxDistance = some cells → Cell.ofPoint near ∈ cells)
    (hfinish : ∀ cells, Cell.window? finish maxDistance = some cells → Cell.ofPoint far ∈ cells) :
    id ∈ (c.candidates start finish maxDistance).value := by
  unfold candidates
  split
  case h_1 starts finishes hstarts hfinishes =>
    rw [mem_filed]
    refine ⟨_, hstart _ hstarts, _, hfinish _ hfinishes,
      hc.mem_bucket.mpr ⟨line, ends, hget, hends, ?_⟩⟩
    rcases hor with rfl | rfl
    · exact Or.inl rfl
    · exact Or.inr rfl
  case h_2 => exact List.mem_range.mpr (lt_size_of_get? hget)

theorem WellFormed.mem_candidates {c : Collection R} (hc : WellFormed c) {start finish : Vec3 R}
    {maxDistance : R} (hstart : c.WindowCovers start maxDistance)
    (hfinish : c.WindowCovers finish maxDistance) {id : Nat}
    (h : c.EndsInRange start finish maxDistance id) :
    id ∈ (c.candidates start finish maxDistance).value := by
  obtain ⟨line, first, last, hget, hends, ⟨hs, hf⟩ | ⟨hs, hf⟩⟩ := h
  · exact hc.mem_candidates_of_mem hget hends (Or.inl rfl)
      (fun _ hcells => hstart _ _ _ _ hget hends hcells first (Or.inl rfl) hs)
      fun _ hcells => hfinish _ _ _ _ hget hends hcells last (Or.inr rfl) hf
  · exact hc.mem_candidates_of_mem hget hends (Or.inr rfl)
      (fun _ hcells => hstart _ _ _ _ hget hends hcells last (Or.inr rfl) hs)
      fun _ hcells => hfinish _ _ _ _ hget hends hcells first (Or.inl rfl) hf

/-! ## What a search finds -/

theorem endpointSearch_sorted (c : Collection R) (start finish : Vec3 R) (maxDistance : R) :
    (c.endpointSearch start finish maxDistance).value.Pairwise (· < ·) := by
  unfold endpointSearch
  split
  · exact List.Pairwise.nil
  · exact (c.candidates_sorted start finish maxDistance).filter _

theorem mem_endpointSearch {c : Collection R} {start finish : Vec3 R} {maxDistance : R} {id : Nat} :
    id ∈ (c.endpointSearch start finish maxDistance).value ↔ 0.0 ≤ maxDistance ∧
      id ∈ (c.candidates start finish maxDistance).value ∧
      c.EndsInRange start finish maxDistance id := by
  unfold endpointSearch
  split
  case isTrue hor =>
    refine iff_of_false List.not_mem_nil ?_
    rintro ⟨hnonneg, -, line, first, last, hget, -⟩
    rcases hor with hneg | hempty
    · exact hneg hnonneg
    · exact absurd hempty (not_isEmpty_of_get? hget)
  case isFalse hnot =>
    rw [not_or, not_not] at hnot
    rw [← joinsAt_iff, and_iff_right hnot.1]
    exact List.mem_filter

theorem inRange_of_mem_endpointSearch {c : Collection R} {start finish : Vec3 R} {maxDistance : R}
    {id : Nat} (h : id ∈ (c.endpointSearch start finish maxDistance).value) :
    c.EndsInRange start finish maxDistance id :=
  (mem_endpointSearch.mp h).2.2

theorem nonneg_of_endsInRange [LawfulSign R] {c : Collection R} {start finish : Vec3 R}
    {maxDistance : R} {id : Nat} (h : c.EndsInRange start finish maxDistance id) :
    0.0 ≤ maxDistance := by
  obtain ⟨_, _, _, _, _, ⟨hs, _⟩ | ⟨hs, _⟩⟩ := h
  · exact nonneg_of_distance_le hs
  · exact nonneg_of_distance_le hs

/-- **A search by ends finds exactly the polylines with their ends in range**, each once and in the
order of their numbers, on whichever of the two ways and for any distance at all. -/
theorem Reachable.endpointSearch_exact [LawfulSign R] {c : Collection R} (hc : Reachable c)
    (start finish : Vec3 R) (maxDistance : R) (hstart : c.WindowCovers start maxDistance)
    (hfinish : c.WindowCovers finish maxDistance) :
    (c.endpointSearch start finish maxDistance).value.Pairwise (· < ·) ∧
      ∀ id, id ∈ (c.endpointSearch start finish maxDistance).value ↔
        c.EndsInRange start finish maxDistance id := by
  refine ⟨c.endpointSearch_sorted start finish maxDistance, fun id =>
    ⟨inRange_of_mem_endpointSearch, fun h => ?_⟩⟩
  have hsize : ¬ c.isEmpty := by
    obtain ⟨line, _, _, hget, _⟩ := h
    have := lt_size_of_get? hget
    simp only [isEmpty, size] at this ⊢
    simp only [Array.isEmpty_iff_size_eq_zero]
    omega
  unfold endpointSearch
  rw [if_neg fun hor => hor.elim (fun hneg => hneg (nonneg_of_endsInRange h)) hsize]
  exact List.mem_filter.mpr ⟨hc.wellFormed.mem_candidates hstart hfinish h,
    (c.joinsAt_iff ..).mpr h⟩

theorem namesakes_endpointSearch_exact :
    Reachable namesakes ∧ namesakes.WindowCovers ⟨0.0, 1.0, 0.0⟩ 1000.0 ∧
      namesakes.WindowCovers ⟨1.0, 0.0, 0.0⟩ 1000.0 ∧
      (namesakes.candidates ⟨0.0, 1.0, 0.0⟩ ⟨1.0, 0.0, 0.0⟩ 1000.0).log = [] ∧
      namesakes.EndsInRange ⟨0.0, 1.0, 0.0⟩ ⟨1.0, 0.0, 0.0⟩ 1000.0 0 := by
  have hreach : Reachable namesakes := .add _ _ (.add _ _ (.add _ _ .empty))
  have hstart : namesakes.WindowCovers ⟨0.0, 1.0, 0.0⟩ 1000.0 := by decide +kernel
  have hfinish : namesakes.WindowCovers ⟨1.0, 0.0, 0.0⟩ 1000.0 := by decide +kernel
  have hfound : 0 ∈ (namesakes.endpointSearch ⟨0.0, 1.0, 0.0⟩ ⟨1.0, 0.0, 0.0⟩ 1000.0).value := by
    decide +kernel
  exact ⟨hreach, hstart, hfinish, by decide +kernel,
    ((hreach.endpointSearch_exact _ _ _ hstart hfinish).2 0).mp hfound⟩

end Collection

end TransitShapes
