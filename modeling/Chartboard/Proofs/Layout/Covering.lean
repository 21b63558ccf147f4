import Chartboard.Proofs.Layout.Sizes
import Mathlib.Tactic.Ring

namespace Chartboard

inductive Axis where
  | horizontal
  | vertical
deriving DecidableEq

namespace Rect

def low (axis : Axis) (r : Rect Rat) : Rat :=
  match axis with
  | .horizontal => r.x
  | .vertical => r.y

def high (axis : Axis) (r : Rect Rat) : Rat :=
  match axis with
  | .horizontal => r.right
  | .vertical => r.bottom

def middle (axis : Axis) (r : Rect Rat) : Rat :=
  match axis with
  | .horizontal => r.centerX
  | .vertical => r.centerY

theorem least_eq_min (a b : Rat) : least a b = min a b := by
  simp only [least, Coordinate.least]
  split
  · next h => exact (min_eq_right h).symm
  · next h => exact (min_eq_left (le_of_not_ge h)).symm

theorem greatest_eq_max (a b : Rat) : greatest a b = max a b := by
  simp only [greatest, Coordinate.greatest]
  split
  · next h => exact (max_eq_right h).symm
  · next h => exact (max_eq_left (le_of_not_ge h)).symm

theorem middle_eq (axis : Axis) (r : Rect Rat) :
    r.middle axis = (r.low axis + r.high axis) / 2 := by
  cases axis <;> simp only [middle, low, high, centerX, centerY, right, bottom, half] <;> ring

theorem low_join (axis : Axis) (r s : Rect Rat) :
    (r.join s).low axis = min (r.low axis) (s.low axis) := by
  cases axis <;> exact least_eq_min _ _

theorem high_join (axis : Axis) (r s : Rect Rat) :
    (r.join s).high axis = max (r.high axis) (s.high axis) := by
  rw [← greatest_eq_max]
  cases axis <;> simp [high, join, right, bottom]

/-- What surrounds rectangles starts where the first of them starts. -/
theorem map_low_union (axis : Axis) (rects : List (Rect Rat)) :
    (union rects).map (low axis) = (rects.map (low axis)).min? := by
  cases rects with
  | nil => rfl
  | cons r rects =>
    have hfold : rects.foldl (fun m s => min m (s.low axis)) (r.low axis) =
        (rects.foldl join r).low axis :=
      List.foldl_hom (low axis) fun r s => (low_join axis r s).symm
    simp only [union, Option.map_some, List.map_cons, List.min?_cons', List.foldl_map, hfold]

/-- What surrounds rectangles ends where the last of them ends. -/
theorem map_high_union (axis : Axis) (rects : List (Rect Rat)) :
    (union rects).map (high axis) = (rects.map (high axis)).max? := by
  cases rects with
  | nil => rfl
  | cons r rects =>
    have hfold : rects.foldl (fun m s => max m (s.high axis)) (r.high axis) =
        (rects.foldl join r).high axis :=
      List.foldl_hom (high axis) fun r s => (high_join axis r s).symm
    simp only [union, Option.map_some, List.map_cons, List.max?_cons', List.foldl_map, hfold]

variable {rects : List (Rect Rat)} {around : Rect Rat}

theorem low_of_union (hu : union rects = some around) (axis : Axis) :
    (∀ r ∈ rects, around.low axis ≤ r.low axis) ∧ ∃ r ∈ rects, r.low axis = around.low axis := by
  have hmin := map_low_union axis rects
  rw [hu, Option.map_some, eq_comm, List.min?_eq_some_iff, List.mem_map] at hmin
  exact ⟨fun r hr => hmin.2 _ (List.mem_map_of_mem hr), hmin.1⟩

theorem high_of_union (hu : union rects = some around) (axis : Axis) :
    (∀ r ∈ rects, r.high axis ≤ around.high axis) ∧
      ∃ r ∈ rects, r.high axis = around.high axis := by
  have hmax := map_high_union axis rects
  rw [hu, Option.map_some, eq_comm, List.max?_eq_some_iff, List.mem_map] at hmax
  exact ⟨fun r hr => hmax.2 _ (List.mem_map_of_mem hr), hmax.1⟩

theorem exists_union (hne : rects ≠ []) : ∃ around, union rects = some around := by
  cases rects with
  | nil => exact absurd rfl hne
  | cons r rects => exact ⟨_, rfl⟩

end Rect
end Chartboard
