import Mathlib.Data.List.Induction
import Mathlib.Data.List.Infix
import TransitShapes.Proofs.Polyline.Join
import TransitShapes.Scalar.Double

/-! # Joining in groups

What is left out of a polyline depends on the last point before it, and on nothing else that was
joined, so polylines may be joined in groups. Only a single point stands in the way: inside a group
the next polyline is compared with it, and it may be left out itself when the group is appended.
-/

namespace TransitShapes.Polyline

variable {R : Type} [Scalar R] {threshold : Option R} {points middle incoming : List (Vec3 R)}

/-! ## Points -/

/-- What stays of the points that come behind a last one. -/
def behind (threshold : Option R) (previous? : Option (Vec3 R)) (incoming : List (Vec3 R)) :
    List (Vec3 R) :=
  match threshold, previous?, incoming with
  | some limit, some previous, next :: rest =>
    if previous.distance next ≤ limit then rest else incoming
  | _, _, _ => incoming

theorem appendPoints_eq_append (threshold : Option R) (points incoming : List (Vec3 R)) :
    appendPoints threshold points incoming =
      points ++ behind threshold points.getLast? incoming := by
  unfold appendPoints behind
  cases threshold with
  | none => rfl
  | some limit =>
    cases points.getLast? with
    | none => rfl
    | some previous =>
      cases incoming with
      | nil => rfl
      | cons next rest => exact (apply_ite (points ++ ·) _ _ _).symm

theorem behind_append (previous? : Option (Vec3 R)) (h : middle ≠ []) :
    behind threshold previous? (middle ++ incoming) =
      behind threshold previous? middle ++ incoming := by
  obtain ⟨next, rest, rfl⟩ := List.exists_cons_of_ne_nil h
  cases threshold with
  | none => rfl
  | some limit =>
    cases previous? with
    | none => rfl
    | some previous => exact (apply_ite (· ++ incoming) _ _ _).symm

/-- Points may be appended to the points before them or to those behind them first. A single point
may be left out, and then another one is compared with what follows. -/
theorem appendPoints_assoc (h : middle.length ≠ 1) :
    appendPoints threshold points (appendPoints threshold middle incoming) =
      appendPoints threshold (appendPoints threshold points middle) incoming := by
  rcases eq_or_ne middle [] with rfl | hne
  · rw [nil_appendPoints, appendPoints_nil]
  · have hpos := List.length_pos_iff.mpr hne
    have hlast : (appendPoints threshold points middle).getLast? = middle.getLast? :=
      getLast?_appendPoints threshold points (by omega)
    calc appendPoints threshold points (appendPoints threshold middle incoming)
        = points ++ behind threshold points.getLast?
            (middle ++ behind threshold middle.getLast? incoming) := by
          rw [appendPoints_eq_append, appendPoints_eq_append]
      _ = (points ++ behind threshold points.getLast? middle) ++
            behind threshold middle.getLast? incoming := by
          rw [behind_append _ hne, List.append_assoc]
      _ = appendPoints threshold (appendPoints threshold points middle) incoming := by
          rw [← appendPoints_eq_append, ← hlast, ← appendPoints_eq_append]

theorem points_join_append (lines more : List (Polyline R)) :
    (join (lines ++ more) threshold).points =
      more.foldl (fun points line => appendPoints threshold points line.points)
        (join lines threshold).points :=
  List.foldl_append

theorem length_appendPoints_ne_one (hpoints : points.length ≠ 1) (hincoming : incoming.length ≠ 1) :
    (appendPoints threshold points incoming).length ≠ 1 := by
  rcases eq_or_ne points [] with rfl | hne
  · rwa [nil_appendPoints]
  · have hpos := List.length_pos_iff.mpr hne
    rw [appendPoints_eq_append, List.length_append]
    omega

theorem size_join_ne_one {lines : List (Polyline R)} (h : ∀ line ∈ lines, line.size ≠ 1) :
    (join lines threshold).size ≠ 1 := by
  induction lines using List.reverseRecOn with
  | nil => nofun
  | append_singleton lines line ih =>
    rw [List.forall_mem_append] at h
    unfold size
    rw [points_join_append_singleton]
    exact length_appendPoints_ne_one (ih h.1) (h.2 line List.mem_cons_self)

theorem appendPoints_join {lines : List (Polyline R)} (h : ∀ line ∈ lines.dropLast, line.size ≠ 1)
    (points : List (Vec3 R)) :
    appendPoints threshold points (join lines threshold).points =
      lines.foldl (fun points line => appendPoints threshold points line.points) points := by
  induction lines using List.reverseRecOn with
  | nil => exact appendPoints_nil threshold points
  | append_singleton lines line ih =>
    rw [List.dropLast_concat] at h
    rw [points_join_append_singleton, appendPoints_assoc (size_join_ne_one h),
      ih fun other hother => h other (List.mem_of_mem_dropLast hother), List.foldl_concat]

/-! ## Names -/

theorem name_join (lines : List (Polyline R)) (threshold : Option R) :
    (join lines threshold).name = some (nameSeparator.intercalate (lines.map (·.name.getD ""))) :=
  rfl

theorem intercalate_cons_intercalate (separator : String) {names : List String} (h : names ≠ [])
    (more : List String) : separator.intercalate (separator.intercalate names :: more) =
      separator.intercalate (names ++ more) := by
  rcases eq_or_ne more [] with rfl | hmore
  · rw [String.intercalate_singleton, List.append_nil]
  · rw [String.intercalate_cons_of_ne_nil hmore, String.intercalate_append_of_ne_nil h hmore]

theorem intercalate_append_intercalate (separator : String) (names : List String)
    {more : List String} (h : more ≠ []) :
    separator.intercalate (names ++ [separator.intercalate more]) =
      separator.intercalate (names ++ more) := by
  rcases eq_or_ne names [] with rfl | hnames
  · exact String.intercalate_singleton
  · rw [String.intercalate_append_of_ne_nil hnames (List.cons_ne_nil _ _),
      String.intercalate_singleton, String.intercalate_append_of_ne_nil hnames h]

/-! ## Groups -/

theorem join_join_cons {lines : List (Polyline R)} (h : lines ≠ []) (more : List (Polyline R)) :
    join (join lines threshold :: more) threshold = join (lines ++ more) threshold := by
  apply Polyline.ext
  · rw [points_join_append]
    change more.foldl _ (appendPoints threshold [] (join lines threshold).points) = _
    rw [nil_appendPoints]
  · rw [name_join, name_join, List.map_cons, name_join, Option.getD_some,
      intercalate_cons_intercalate _ (by simpa using h), List.map_append]

theorem join_append_join (lines : List (Polyline R)) {more : List (Polyline R)} (h : more ≠ [])
    (hsizes : ∀ line ∈ more.dropLast, line.size ≠ 1) :
    join (lines ++ [join more threshold]) threshold = join (lines ++ more) threshold := by
  apply Polyline.ext
  · rw [points_join_append_singleton, appendPoints_join hsizes, points_join_append]
  · rw [name_join, name_join, List.map_append, List.map_singleton, name_join, Option.getD_some,
      intercalate_append_intercalate _ _ (by simpa using h), List.map_append]

theorem foldl_join_pair (first : Polyline R) (rest : List (Polyline R)) :
    rest.foldl (fun joined line => join [joined, line] threshold) (join [first] threshold) =
      join (first :: rest) threshold := by
  induction rest using List.reverseRecOn with
  | nil => rfl
  | append_singleton rest line ih =>
    rw [List.foldl_concat, ih, join_join_cons (List.cons_ne_nil _ _), List.cons_append]

/-- **Joining does not depend on the groups.** The first polylines may be joined first, so joining
one at a time is joining at once. The last ones may be joined first if no polyline among them but
the last is a single point. Empty polylines and those without a name count like any other. -/
theorem join_regroups (threshold : Option R) :
    (∀ lines more : List (Polyline R), lines ≠ [] →
      join ([join lines threshold] ++ more) threshold = join (lines ++ more) threshold) ∧
    (∀ (first : Polyline R) (rest : List (Polyline R)),
      rest.foldl (fun joined line => join [joined, line] threshold) (join [first] threshold) =
        join (first :: rest) threshold) ∧
    (∀ lines more : List (Polyline R), more ≠ [] → (∀ line ∈ more.dropLast, line.size ≠ 1) →
      join (lines ++ [join more threshold]) threshold = join (lines ++ more) threshold) :=
  ⟨fun _ more h => join_join_cons h more, foldl_join_pair,
    fun lines _ h hsizes => join_append_join lines h hsizes⟩

def eastward : Polyline Float := ⟨[⟨1.0, 0.0, 0.0⟩, ⟨0.8, 0.6, 0.0⟩], some "East"⟩

def northward : Polyline Float := ⟨[⟨0.8, 0.6, 0.0⟩, ⟨0.0, 0.0, 1.0⟩], none⟩

def pole : Polyline Float := ⟨[⟨0.0, 0.0, 1.0⟩], some "Pole"⟩

theorem eastward_northward_join_regroups :
    (join ([eastward] ++ [{}, northward, pole]) (some 1.0)).size = 3 ∧
      join ([join [eastward, {}] (some 1.0)] ++ [northward, pole]) (some 1.0) =
        join ([eastward, {}] ++ [northward, pole]) (some 1.0) ∧
      (∀ line ∈ [{}, northward, pole].dropLast, line.size ≠ 1) ∧
      join ([eastward] ++ [join [{}, northward, pole] (some 1.0)]) (some 1.0) =
        join ([eastward] ++ [{}, northward, pole]) (some 1.0) := by
  obtain ⟨hfirst, -, hlast⟩ := join_regroups (R := Float) (some 1.0)
  have hsizes : ∀ line ∈ [{}, northward, pole].dropLast, line.size ≠ 1 := by decide
  exact ⟨by decide +kernel, hfirst _ _ (List.cons_ne_nil _ _), hsizes,
    hlast _ _ (List.cons_ne_nil _ _) hsizes⟩

-- A single point in the middle of a group: joined first, it takes the start of the next polyline
-- with it before it is left out itself.
example :
    let corner : Polyline Float := ⟨[⟨0.8, 0.6, 0.0⟩], none⟩
    let beyond : Polyline Float := ⟨[⟨0.0, 1.0, 0.0⟩, ⟨0.0, 0.0, 1.0⟩], none⟩
    let start : Polyline Float := ⟨[⟨1.0, 0.0, 0.0⟩], none⟩
    (join [start, join [corner, beyond] (some 6e6)] (some 6e6)).size = 2 ∧
      (join [start, corner, beyond] (some 6e6)).size = 3 := by
  decide +kernel

end TransitShapes.Polyline
