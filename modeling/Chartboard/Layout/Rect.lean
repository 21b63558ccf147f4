namespace Chartboard

/-- Nothing is assumed of the operations, since numbers of limited precision keep few laws. -/
class Coordinate (α : Type) extends Add α, Sub α, Mul α, NatCast α where
  half : α → α
  least : α → α → α
  greatest : α → α → α
  isFinite : α → Bool
  isPositive : α → Bool
  isNonnegative : α → Bool

export Coordinate (half least greatest isFinite isPositive isNonnegative)

/-- What is not a number is neither the smaller nor the greater of two. Of two equal numbers, such
as the zeros of either sign, the second one is taken. -/
instance : Coordinate Float where
  natCast := Float.ofNat
  half x := x / 2
  least x y := if x.isNaN || y ≤ x then y else x
  greatest x y := if x.isNaN || x ≤ y then y else x
  isFinite := Float.isFinite
  isPositive x := 0 < x
  isNonnegative x := 0 ≤ x

instance : Coordinate Rat where
  half x := x / 2
  least x y := if y ≤ x then y else x
  greatest x y := if x ≤ y then y else x
  isFinite _ := true
  isPositive x := 0 < x
  isNonnegative x := 0 ≤ x

/-- A rectangle by its top left corner and its size. -/
structure Rect (α : Type) where
  x : α
  y : α
  width : α
  height : α
deriving DecidableEq

namespace Rect
variable {α : Type} [Coordinate α]

def right (r : Rect α) : α :=
  r.x + r.width

def bottom (r : Rect α) : α :=
  r.y + r.height

def centerX (r : Rect α) : α :=
  r.x + half r.width

def centerY (r : Rect α) : α :=
  r.y + half r.height

/-- The smallest rectangle around two. -/
def join (r s : Rect α) : Rect α :=
  let x := least r.x s.x
  let y := least r.y s.y
  ⟨x, y, greatest r.right s.right - x, greatest r.bottom s.bottom - y⟩

/-- The smallest rectangle around all of a list, if there is one to surround. -/
def union : List (Rect α) → Option (Rect α)
  | [] => none
  | r :: rs => some (rs.foldl join r)

/-- What a map makes of two rectangles together it makes of any number of them. -/
theorem union_map {β : Type} [Coordinate β] {f : Rect α → Rect β}
    (hf : ∀ r s, (f r).join (f s) = f (r.join s)) (rects : List (Rect α)) :
    union (rects.map f) = (union rects).map f := by
  cases rects with
  | nil => rfl
  | cons r rects =>
    rw [List.map_cons, union, union, Option.map_some, List.foldl_map,
      List.foldl_hom f fun r s => hf r s]

end Rect
end Chartboard
