import TransitShapes.Proofs.Polyline.Join
import TransitShapes.Proofs.Scalar.Laws

/-! # What lengths add up to

Where nothing is rounded, the length of a polyline does not change with its direction, and points
that go on where others end add their own length.
-/

namespace TransitShapes

open Scalar

variable {R : Type} [Scalar R]

namespace Polyline

theorem length_eq (line : Polyline R) (h : 2 ≤ line.size) : line.length = .ok line.pathLength := by
  unfold length
  rw [if_neg (by omega)]

theorem zip_tail_append {α : Type} {first rest : List α} {a : α} (h : first.getLast? = some a) :
    (first ++ rest).zip (first ++ rest).tail = first.zip first.tail ++ (a :: rest).zip rest := by
  induction first with
  | nil => simp at h
  | cons b others ih =>
    cases others with
    | nil =>
      simp only [List.getLast?_singleton, Option.some.injEq] at h
      simp [h]
    | cons c others =>
      rw [List.getLast?_cons_cons] at h
      simpa using ih h

/-- The length of the way through some points. -/
def lengthThrough (points : List (Vec3 R)) : R := pathLength ⟨points, none⟩

theorem pathLength_eq (line : Polyline R) : line.pathLength = lengthThrough line.points := rfl

@[simp]
theorem lengthThrough_nil : lengthThrough ([] : List (Vec3 R)) = 0.0 := rfl

variable [LawfulExact R] {points incoming : List (Vec3 R)} {p : Vec3 R}

theorem lengthThrough_append (h : points.getLast? = some p) :
    lengthThrough (points ++ incoming) =
      lengthThrough points + lengthThrough (p :: incoming) := by
  unfold lengthThrough pathLength segments
  simp only [zip_tail_append h, List.foldl_append, List.tail_cons]
  exact LawfulExact.foldl_add (fun ends : Vec3 R × Vec3 R => ends.1.distance ends.2) _ _

theorem lengthThrough_pair (p q : Vec3 R) : lengthThrough [p, q] = p.distance q :=
  LawfulExact.zero_add _

theorem lengthThrough_cons_cons (p q : Vec3 R) (rest : List (Vec3 R)) :
    lengthThrough (p :: q :: rest) = p.distance q + lengthThrough (q :: rest) := by
  have h : lengthThrough ([p, q] ++ rest) = lengthThrough [p, q] + lengthThrough (q :: rest) :=
    lengthThrough_append rfl
  rwa [lengthThrough_pair] at h

theorem lengthThrough_reverse (points : List (Vec3 R)) :
    lengthThrough points.reverse = lengthThrough points := by
  induction points with
  | nil => rfl
  | cons p rest ih =>
    cases rest with
    | nil => rfl
    | cons q rest =>
      have hlast : (q :: rest).reverse.getLast? = some q := by simp
      rw [List.reverse_cons, lengthThrough_append hlast, ih, lengthThrough_pair,
        lengthThrough_cons_cons p, LawfulExact.distance_comm q, LawfulExact.add_comm]

theorem pathLength_reversed (line : Polyline R) : line.reversed.pathLength = line.pathLength :=
  lengthThrough_reverse line.points

theorem lengthThrough_appendPoints
    (h : ∀ p ∈ points.getLast?, ∀ q ∈ incoming.head?, p = q) :
    lengthThrough (appendPoints (some 0.0) points incoming) =
      lengthThrough points + lengthThrough incoming := by
  cases incoming with
  | nil => rw [appendPoints_nil, lengthThrough_nil, LawfulExact.add_zero]
  | cons q rest =>
    cases hlast : points.getLast? with
    | none =>
      rw [List.getLast?_eq_none_iff.mp hlast, nil_appendPoints, lengthThrough_nil,
        LawfulExact.zero_add]
    | some p =>
      have hsame : p = q := h p hlast q rfl
      subst hsame
      have hzero : p.distance p ≤ 0.0 := by
        rw [LawfulExact.distance_self]
        exact LawfulSign.zero_le_zero
      unfold appendPoints
      simp only [hlast, if_pos hzero]
      exact lengthThrough_append hlast

end Polyline

end TransitShapes
