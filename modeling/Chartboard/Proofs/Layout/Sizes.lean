import Chartboard.Layout.Basic
import Mathlib.Tactic.Linarith
import Mathlib.Tactic.Positivity

namespace Chartboard

section Places
variable {α : Type} [Coordinate α]

theorem Depth.size_roots (count : Nat) (links : List (Nat × Nat)) :
    (roots count links).size = count := by
  refine List.foldlRecOn (motive := fun found : Array (Option Nat) => found.size = count) links _
    Array.size_replicate ?_
  intro found hf link _
  rw [Array.size_setIfInBounds, hf]

theorem Depth.size_spread (links : List (Nat × Nat)) (depth : Nat) (found : Array (Option Nat)) :
    (spread links depth found).size = found.size := by
  refine List.foldlRecOn (motive := fun f : Array (Option Nat) => f.size = found.size) links _
    rfl ?_
  intro f hf link _
  split
  · split
    · rw [Array.size_setIfInBounds, hf]
    · exact hf
  · exact hf

theorem Depth.size_search (links : List (Nat × Nat)) (rounds depth : Nat)
    (found : Array (Option Nat)) : (search links rounds depth found).size = found.size := by
  fun_induction search links rounds depth found with
  | case1 => rfl
  | case2 _ _ _ _ ih => rw [ih, size_spread]
  | case3 => rfl

theorem FlowGraph.length_depths (graph : FlowGraph) :
    graph.depths.length = graph.nodes.length := by
  simp [depths, Depth.size_search, Depth.size_roots]

theorem Layered.length_slotsFrom (seen depths : List Nat) :
    (slotsFrom seen depths).length = depths.length := by
  induction depths generalizing seen with
  | nil => rfl
  | cons d depths ih => rw [slotsFrom, List.length_cons, List.length_cons, ih]

theorem Layered.length_cells (depths : List Nat) : (cells depths).length = depths.length := by
  simp [cells, length_slotsFrom]

theorem FlowGraph.length_nodes_layout (m : Metrics α) (graph : FlowGraph) :
    (graph.layout m).nodes.length = graph.nodes.length := by
  simp [layout, Layout.within, Layered.length_cells, length_depths]

theorem SequenceDiagram.length_nodes_layout (m : Metrics α) (diagram : SequenceDiagram) :
    (diagram.layout m).nodes.length = diagram.participants.length := by
  simp [layout, Layout.within]

theorem SequenceDiagram.length_frames_layout (m : Metrics α) (diagram : SequenceDiagram) :
    (diagram.layout m).frames.length = diagram.participants.length := by
  simp [layout, Layout.within]

theorem SequenceDiagram.length_rows_layout (m : Metrics α) {diagram : SequenceDiagram}
    (hne : diagram.participants ≠ []) :
    (diagram.layout m).rows.length = diagram.messages.length := by
  simp [layout, Layout.within, rows, hne]

end Places

/-- Measures with room for nodes and none that takes room away. -/
structure Metrics.Usable (m : Metrics Rat) : Prop where
  nodeWidth : 0 < m.nodeWidth
  nodeHeight : 0 < m.nodeHeight
  spacingX : 0 ≤ m.spacingX
  spacingY : 0 ≤ m.spacingY

/-- A value counts only if it can be used, like the one in its place. -/
theorem getD_filter {α : Type} (p q : α → Bool) (value : Option α) {default : α}
    (hd : p default = true) : p ((value.filter fun v => q v && p v).getD default) = true := by
  cases hv : value.filter fun v => q v && p v with
  | none => exact hd
  | some v =>
    have hp := (Option.filter_eq_some_iff.1 hv).2
    exact (Bool.and_eq_true_iff.1 hp).2

theorem Metrics.Usable.adjust {m : Metrics Rat} (h : m.Usable) (o : Overrides Rat) :
    (m.adjust o).Usable := by
  have hpos : ∀ (value : Option Rat) {default : Rat}, 0 < default →
      0 < (value.filter fun v => isFinite v && isPositive v).getD default :=
    fun value _ hd => of_decide_eq_true (getD_filter isPositive isFinite value (decide_eq_true hd))
  have hnonneg : ∀ (value : Option Rat) {default : Rat}, 0 ≤ default →
      0 ≤ (value.filter fun v => isFinite v && isNonnegative v).getD default :=
    fun value _ hd =>
      of_decide_eq_true (getD_filter isNonnegative isFinite value (decide_eq_true hd))
  exact ⟨hpos o.nodeWidth h.nodeWidth, hpos o.nodeHeight h.nodeHeight,
    hnonneg o.spacingX h.spacingX, hnonneg o.spacingY h.spacingY⟩

theorem Diagram.metrics_usable (diagram : Diagram) (o : Overrides Rat) :
    (diagram.metrics o).Usable := by
  refine Metrics.Usable.adjust ?_ o
  cases diagram.family <;> constructor <;> decide

theorem least_le_left (a b : Rat) : least a b ≤ a := by
  simp only [least, Coordinate.least]
  split
  · assumption
  · exact le_refl a

theorem least_pos {a b : Rat} (ha : 0 < a) (hb : 0 < b) : 0 < least a b := by
  simp only [least, Coordinate.least]
  split
  · exact hb
  · exact ha

theorem le_greatest_left (a b : Rat) : a ≤ greatest a b := by
  simp only [greatest, Coordinate.greatest]
  split
  · assumption
  · exact le_refl a

/-- A rectangle with a width and a height. -/
structure Rect.Solid (rect : Rect Rat) : Prop where
  width : 0 < rect.width
  height : 0 < rect.height

theorem Rect.Solid.join {r : Rect Rat} (h : r.Solid) (s : Rect Rat) : (r.join s).Solid := by
  obtain ⟨hw, hh⟩ := h
  constructor
  · have hl := least_le_left r.x s.x
    have hg := le_greatest_left r.right s.right
    simp only [Rect.right, Rect.join] at hg ⊢
    linarith
  · have hl := least_le_left r.y s.y
    have hg := le_greatest_left r.bottom s.bottom
    simp only [Rect.bottom, Rect.join] at hg ⊢
    linarith

theorem Rect.solid_of_union {rects : List (Rect Rat)} {around : Rect Rat}
    (h : ∀ rect ∈ rects, rect.Solid) (hu : Rect.union rects = some around) : around.Solid := by
  cases rects with
  | nil => cases hu
  | cons rect rects =>
    cases hu
    exact List.foldlRecOn (motive := Rect.Solid) rects _ (h rect List.mem_cons_self)
      fun _ ha other _ => ha.join other

/-- A layout in which everything has a width and a height. -/
structure Layout.Solid (layout : Layout Rat) : Prop where
  nodes : ∀ rect ∈ layout.nodes, rect.Solid
  frames : ∀ frame ∈ layout.frames, frame.rect.Solid

/-- A frame surrounds its members. -/
theorem Group.frame?_solid {graph : FlowGraph} {nodes : List (Rect Rat)} {group : Group}
    {frame : Frame Rat} (hn : ∀ rect ∈ nodes, rect.Solid)
    (h : group.frame? graph nodes = some frame) : frame.rect.Solid := by
  obtain ⟨inner, hi, rfl⟩ := Option.map_eq_some_iff.1 h
  have hs : inner.Solid := by
    refine Rect.solid_of_union ?_ hi
    intro rect hm
    obtain ⟨place, -, hr⟩ := List.mem_filterMap.1 hm
    exact hn rect (List.mem_of_getElem? hr)
  obtain ⟨hw, hh⟩ := hs
  constructor
  · simp only [framePadding]
    positivity
  · simp only [framePadding, frameTitle]
    positivity

theorem FlowGraph.layout_solid {m : Metrics Rat} (h : m.Usable) (graph : FlowGraph) :
    (graph.layout m).Solid := by
  have hn : ∀ rect ∈ (graph.layout m).nodes, rect.Solid := by
    intro rect hm
    obtain ⟨cell, -, rfl⟩ := List.mem_map.1 hm
    exact ⟨h.nodeWidth, h.nodeHeight⟩
  refine ⟨hn, ?_⟩
  intro frame hm
  obtain ⟨group, -, hf⟩ := List.mem_filterMap.1 hm
  exact Group.frame?_solid hn hf

theorem Participant.header_solid {m : Metrics Rat} (h : m.Usable) (x : Rat) (p : Participant) :
    (p.header m x).Solid := by
  have hs := least_pos h.nodeHeight h.nodeWidth
  unfold header
  split
  · exact ⟨hs, hs⟩
  · exact ⟨h.nodeWidth, h.nodeHeight⟩

/-- A lifeline is at least as high as its head. -/
theorem SequenceDiagram.layout_solid {m : Metrics Rat} (h : m.Usable) (diagram : SequenceDiagram) :
    (diagram.layout m).Solid := by
  constructor
  · intro rect hm
    simp only [layout, Layout.within, List.mem_map] at hm
    obtain ⟨column, -, rfl⟩ := hm
    exact Participant.header_solid h _ _
  · intro frame hm
    simp only [layout, Layout.within, List.mem_map] at hm
    obtain ⟨column, -, rfl⟩ := hm
    refine ⟨h.nodeWidth, ?_⟩
    have hh := h.nodeHeight
    have hrows : 0 ≤ ((max diagram.messages.length 1 : Nat) : Rat) * m.spacingY :=
      mul_nonneg (Nat.cast_nonneg _) h.spacingY
    simp only
    linarith

theorem Diagram.layout_solid {m : Metrics Rat} (h : m.Usable) (diagram : Diagram) :
    (diagram.layout m).Solid := by
  cases diagram with
  | flow graph => exact graph.layout_solid h
  | sequence diagram => exact diagram.layout_solid h

end Chartboard
