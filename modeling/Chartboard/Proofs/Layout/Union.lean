import Chartboard.Proofs.Layout.Lifelines

namespace Chartboard.Rect

variable {r s t around : Rect Rat} {rects : List (Rect Rat)} {x y : Rat}

/-- A rectangle that may be as thin as a line, or a point. -/
structure Sized (r : Rect Rat) : Prop where
  width : 0 ≤ r.width
  height : 0 ≤ r.height

/-- Whether a point is in a rectangle or on its edge. -/
structure Has (r : Rect Rat) (x y : Rat) : Prop where
  left : r.x ≤ x
  right : x ≤ r.right
  top : r.y ≤ y
  bottom : y ≤ r.bottom

def Covers (s r : Rect Rat) : Prop :=
  ∀ {x y : Rat}, r.Has x y → s.Has x y

theorem sized_iff : r.Sized ↔ ∀ axis, r.low axis ≤ r.high axis := by
  constructor
  · rintro ⟨hw, hh⟩ axis
    cases axis with
    | horizontal => exact le_add_of_nonneg_right hw
    | vertical => exact le_add_of_nonneg_right hh
  · intro h
    exact ⟨(le_add_iff_nonneg_right r.x).1 (h .horizontal),
      (le_add_iff_nonneg_right r.y).1 (h .vertical)⟩

theorem Within.refl (r : Rect Rat) : r.Within r :=
  fun _ => ⟨le_rfl, le_rfl⟩

theorem Within.antisymm (h : r.Within s) (h' : s.Within r) : r = s :=
  eq_of_ends fun axis =>
    ⟨le_antisymm (h' axis).1 (h axis).1, le_antisymm (h axis).2 (h' axis).2⟩

theorem Sized.of_within (h : r.Sized) (hw : r.Within s) : s.Sized :=
  sized_iff.2 fun axis => (hw axis).1.trans ((sized_iff.1 h axis).trans (hw axis).2)

/-- A rectangle without points would be covered by any other. -/
theorem Sized.covers_iff (h : r.Sized) : s.Covers r ↔ r.Within s := by
  have hright : r.x ≤ r.right := sized_iff.1 h .horizontal
  have hbottom : r.y ≤ r.bottom := sized_iff.1 h .vertical
  constructor
  · intro hc axis
    have hfirst := hc ⟨le_rfl, hright, le_rfl, hbottom⟩
    have hlast := hc ⟨hright, le_rfl, hbottom, le_rfl⟩
    cases axis with
    | horizontal => exact ⟨hfirst.left, hlast.right⟩
    | vertical => exact ⟨hfirst.top, hlast.bottom⟩
  · intro hw x y hp
    exact ⟨(hw .horizontal).1.trans hp.left, hp.right.trans (hw .horizontal).2,
      (hw .vertical).1.trans hp.top, hp.bottom.trans (hw .vertical).2⟩

theorem join_within_iff : (r.join s).Within t ↔ r.Within t ∧ s.Within t := by
  simp only [Within, low_join, high_join, le_min_iff, max_le_iff]
  constructor
  · intro h
    exact ⟨fun axis => ⟨(h axis).1.1, (h axis).2.1⟩, fun axis => ⟨(h axis).1.2, (h axis).2.2⟩⟩
  · rintro ⟨hr, hs⟩ axis
    exact ⟨⟨(hr axis).1, (hs axis).1⟩, (hr axis).2, (hs axis).2⟩

theorem foldl_join_within_iff : (rects.foldl join r).Within t ↔
    r.Within t ∧ ∀ s ∈ rects, s.Within t := by
  -- Every rectangle may move the corner from which the sizes count, so the start is any.
  induction rects generalizing r with
  | nil => simp
  | cons s rects ih =>
    rw [List.foldl_cons, ih, join_within_iff, List.forall_mem_cons, and_assoc]

/-- There is one rectangle that keeps inside exactly what all of some others keep inside. -/
theorem union_eq_some_iff : union rects = some around ↔
    rects ≠ [] ∧ ∀ t, around.Within t ↔ ∀ r ∈ rects, r.Within t := by
  have hfold : ∀ {r : Rect Rat} {rects : List (Rect Rat)} (t : Rect Rat),
      (rects.foldl join r).Within t ↔ ∀ s ∈ r :: rects, s.Within t := by
    intro r rects t
    rw [foldl_join_within_iff, List.forall_mem_cons]
  constructor
  · intro hu
    cases rects with
    | nil => cases hu
    | cons r rects =>
      cases hu
      exact ⟨List.cons_ne_nil r rects, hfold⟩
  · rintro ⟨hne, h⟩
    cases rects with
    | nil => exact absurd rfl hne
    | cons r rects =>
      have hfirst : (rects.foldl join r).Within around := (hfold _).2 ((h _).1 (.refl _))
      have hlast : around.Within (rects.foldl join r) := (h _).2 ((hfold _).1 (.refl _))
      exact congrArg some (hfirst.antisymm hlast)

theorem union_eq_none_iff : union rects = none ↔ rects = [] := by
  cases rects <;> simp [union]

theorem union_congr_within {more : List (Rect Rat)} (hnil : rects = [] ↔ more = [])
    (h : ∀ t, (∀ r ∈ rects, r.Within t) ↔ ∀ r ∈ more, r.Within t) : union rects = union more := by
  refine Option.ext fun around => ?_
  rw [union_eq_some_iff, union_eq_some_iff, ne_eq, hnil]
  simp only [h]

theorem union_congr {more : List (Rect Rat)} (h : ∀ r, r ∈ rects ↔ r ∈ more) :
    union rects = union more := by
  refine union_congr_within ?_ fun t => ?_
  · simp only [List.eq_nil_iff_forall_not_mem, h]
  · simp only [h]

/-- What surrounds what surrounds the parts surrounds them all. -/
theorem union_parts (parts : List (List (Rect Rat))) :
    union (parts.filterMap union) = union parts.flatten := by
  refine union_congr_within (by simp [union_eq_none_iff]) fun t => ?_
  constructor
  · intro h r hr
    obtain ⟨part, hp, hm⟩ := List.mem_flatten.1 hr
    obtain ⟨around, hu⟩ := exists_union (List.ne_nil_of_mem hm)
    exact ((union_eq_some_iff.1 hu).2 t).1 (h around (List.mem_filterMap.2 ⟨part, hp, hu⟩)) r hm
  · intro h around ha
    obtain ⟨part, hp, hu⟩ := List.mem_filterMap.1 ha
    exact ((union_eq_some_iff.1 hu).2 t).2 fun r hm => h r (List.mem_flatten.2 ⟨part, hp, hm⟩)

/-- What surrounds rectangles is the least that covers them. It is the same for every order of them,
and for every way to surround parts of them first. -/
theorem union_is_least_cover (h : ∀ r ∈ rects, r.Sized) :
    (union rects = none ↔ rects = []) ∧
    (∀ around, union rects = some around → (∀ r ∈ rects, around.Covers r) ∧
      (∀ s : Rect Rat, (∀ r ∈ rects, s.Covers r) → s.Covers around) ∧ around.Sized) ∧
    (∀ more, rects.Perm more → union more = union rects) ∧
    ∀ parts : List (List (Rect Rat)), parts.flatten.Perm rects →
      union (parts.filterMap union) = union rects := by
  refine ⟨union_eq_none_iff, fun around hu => ?_, fun more hp => ?_, fun parts hp => ?_⟩
  · obtain ⟨hne, hwithin⟩ := union_eq_some_iff.1 hu
    have hall : ∀ r ∈ rects, r.Within around := (hwithin around).1 (.refl around)
    obtain ⟨r, hr⟩ := List.exists_mem_of_ne_nil rects hne
    have hsized : around.Sized := (h r hr).of_within (hall r hr)
    refine ⟨fun r hr => (h r hr).covers_iff.2 (hall r hr), fun s hs => ?_, hsized⟩
    exact hsized.covers_iff.2 ((hwithin s).2 fun r hr => (h r hr).covers_iff.1 (hs r hr))
  · exact union_congr fun r => hp.mem_iff.symm
  · rw [union_parts, union_congr fun r => hp.mem_iff]

/-- Three rectangles of which one is as thin as a line, and no two surround the third. -/
def strewn : List (Rect Rat) :=
  [⟨10, 20, 5, 5⟩, ⟨-3, 40, 0, 2⟩, ⟨12, 0, 1, 30⟩]

theorem strewn_least_cover : (∀ r ∈ strewn, r.Sized) ∧ union strewn = some ⟨-3, 0, 18, 42⟩ ∧
    (∀ r ∈ strewn, (⟨-3, 0, 18, 42⟩ : Rect Rat).Covers r) ∧
    union ([[strewn[2], strewn[0]], [], [strewn[1]]].filterMap union) = union strewn := by
  have hsized : ∀ r ∈ strewn, r.Sized := by
    intro r hr
    simp only [strewn, List.mem_cons, List.not_mem_nil, or_false] at hr
    rcases hr with rfl | rfl | rfl <;> exact ⟨by norm_num, by norm_num⟩
  have hu : union strewn = some ⟨-3, 0, 18, 42⟩ := by decide +kernel
  obtain ⟨-, hcover, -, hparts⟩ := union_is_least_cover hsized
  exact ⟨hsized, hu, (hcover _ hu).1, hparts _ (by decide +kernel)⟩

end Chartboard.Rect
