import TransitShapes.Polyline.Basic

/-! # What joining keeps

Of the points that are appended at most the first is left out, and only behind another point. So
what is there stays in place, and a polyline of two points or more ends where its last part ends.
-/

namespace TransitShapes.Polyline

variable {R : Type} [Scalar R] {threshold : Option R} {points incoming : List (Vec3 R)}

theorem appendPoints_eq_or (threshold : Option R) (points incoming : List (Vec3 R)) :
    appendPoints threshold points incoming = points ++ incoming ∨
      points ≠ [] ∧ appendPoints threshold points incoming = points ++ incoming.tail := by
  unfold appendPoints
  split
  case h_1 limit previous next rest hlast =>
    split
    · refine Or.inr ⟨?_, rfl⟩
      rintro rfl
      cases hlast
    · exact Or.inl rfl
  case h_2 => exact Or.inl rfl

@[simp]
theorem appendPoints_nil (threshold : Option R) (points : List (Vec3 R)) :
    appendPoints threshold points [] = points := by
  rcases appendPoints_eq_or threshold points [] with h | ⟨_, h⟩ <;> simp [h]

@[simp]
theorem nil_appendPoints (threshold : Option R) (incoming : List (Vec3 R)) :
    appendPoints threshold [] incoming = incoming := by
  rcases appendPoints_eq_or threshold [] incoming with h | ⟨hne, _⟩
  · simp [h]
  · exact absurd rfl hne

theorem prefix_appendPoints (threshold : Option R) (points incoming : List (Vec3 R)) :
    points <+: appendPoints threshold points incoming := by
  rcases appendPoints_eq_or threshold points incoming with h | ⟨_, h⟩ <;> rw [h]
  · exact List.prefix_append _ _
  · exact List.prefix_append _ _

theorem getLast?_appendPoints (threshold : Option R) (points : List (Vec3 R))
    (h : 2 ≤ incoming.length) :
    (appendPoints threshold points incoming).getLast? = incoming.getLast? := by
  match incoming, h with
  | next :: second :: rest, _ =>
    rcases appendPoints_eq_or threshold points (next :: second :: rest) with h | ⟨_, h⟩ <;>
      simp [h, List.getLast?_append, List.getLast?_cons]

theorem prefix_foldl_appendPoints (lines : List (Polyline R)) :
    points <+: lines.foldl
      (fun points line => appendPoints threshold points line.points) points := by
  induction lines generalizing points with
  | nil => exact List.prefix_rfl
  | cons line rest ih => exact (prefix_appendPoints _ _ _).trans ih

theorem points_join_append_singleton (lines : List (Polyline R)) (line : Polyline R) :
    (join (lines ++ [line]) threshold).points =
      appendPoints threshold (join lines threshold).points line.points := by
  simp [join]

theorem points_join_eq_nil {lines : List (Polyline R)} (h : ∀ line ∈ lines, line.points = []) :
    (join lines threshold).points = [] := by
  unfold join
  induction lines with
  | nil => rfl
  | cons line rest ih =>
    obtain ⟨hline, hrest⟩ := List.forall_mem_cons.mp h
    rw [List.foldl_cons, hline, appendPoints_nil]
    exact ih hrest

theorem mem_of_mem_appendPoints {incoming : List (Vec3 R)} {p : Vec3 R}
    (hp : p ∈ appendPoints threshold points incoming) : p ∈ points ∨ p ∈ incoming := by
  rcases appendPoints_eq_or threshold points incoming with h | ⟨_, h⟩ <;> rw [h] at hp
  · exact List.mem_append.mp hp
  · exact (List.mem_append.mp hp).imp_right List.mem_of_mem_tail

theorem mem_foldl_appendPoints {lines : List (Polyline R)} {p : Vec3 R}
    (hp : p ∈ lines.foldl (fun points line => appendPoints threshold points line.points) points) :
    p ∈ points ∨ ∃ line ∈ lines, p ∈ line.points := by
  induction lines generalizing points with
  | nil => exact Or.inl hp
  | cons line rest ih =>
    rcases ih hp with hp | ⟨other, hother, hp⟩
    · exact (mem_of_mem_appendPoints hp).imp_right fun hp => ⟨line, List.mem_cons_self, hp⟩
    · exact Or.inr ⟨other, List.mem_cons_of_mem _ hother, hp⟩

theorem exists_of_mem_join {lines : List (Polyline R)} {p : Vec3 R}
    (hp : p ∈ (join lines threshold).points) : ∃ line ∈ lines, p ∈ line.points :=
  (mem_foldl_appendPoints hp).resolve_left List.not_mem_nil

end TransitShapes.Polyline
