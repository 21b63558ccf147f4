import Chartboard.Proofs.Layout.Layers

namespace Chartboard

namespace Direction

/-- The axis along which a flowchart grows from layer to layer. -/
def growth : Direction → Axis
  | .topToBottom => .vertical
  | .leftToRight => .horizontal

/-- The axis along which the nodes of a layer stand. -/
def breadth : Direction → Axis
  | .topToBottom => .horizontal
  | .leftToRight => .vertical

theorem axis_cases (direction : Direction) (axis : Axis) :
    axis = direction.growth ∨ axis = direction.breadth := by
  cases direction <;> cases axis <;> decide

end Direction

namespace Metrics

def start (m : Metrics Rat) : Axis → Rat
  | .horizontal => m.startX
  | .vertical => m.startY

def size (m : Metrics Rat) : Axis → Rat
  | .horizontal => m.nodeWidth
  | .vertical => m.nodeHeight

def gap (m : Metrics Rat) : Axis → Rat
  | .horizontal => m.spacingX
  | .vertical => m.spacingY

theorem Usable.size_pos {m : Metrics Rat} (h : m.Usable) (axis : Axis) : 0 < m.size axis := by
  cases axis
  · exact h.nodeWidth
  · exact h.nodeHeight

theorem Usable.gap_nonneg {m : Metrics Rat} (h : m.Usable) (axis : Axis) : 0 ≤ m.gap axis := by
  cases axis
  · exact h.spacingX
  · exact h.spacingY

theorem Usable.pitch_nonneg {m : Metrics Rat} (h : m.Usable) (axis : Axis) :
    0 ≤ m.size axis + m.gap axis :=
  add_nonneg (h.size_pos axis).le (h.gap_nonneg axis)

end Metrics

def Layout.extent (layout : Layout Rat) : Axis → Rat
  | .horizontal => layout.width
  | .vertical => layout.height

/-- How many nodes stand side by side along an axis, where there are most of them. -/
def FlowGraph.lanes (graph : FlowGraph) (axis : Axis) : Nat :=
  if axis = graph.direction.growth then graph.layerCount else graph.widest

/-- The rectangles of the nodes at a depth. -/
def FlowGraph.layer (graph : FlowGraph) (layout : Layout Rat) (d : Nat) : List (Rect Rat) :=
  ((graph.depths.zip layout.nodes).filter (·.1 = d)).map (·.2)

namespace Layered

/-- How many steps a cell stands from the start along an axis. -/
def Cell.steps (direction : Direction) (widest : Nat) (cell : Cell) (axis : Axis) : Rat :=
  if axis = direction.growth then cell.depth else
    ((widest : Rat) - cell.layerSize) / 2 + cell.slot

theorem Cell.low_rect (m : Metrics Rat) (direction : Direction) {widest : Nat} {cell : Cell}
    (h : cell.layerSize ≤ widest) (axis : Axis) : (cell.rect m direction widest).low axis =
      m.start axis + cell.steps direction widest axis * (m.size axis + m.gap axis) := by
  have hcast : ((widest - cell.layerSize : Nat) : Rat) = (widest : Rat) - cell.layerSize :=
    Nat.cast_sub h
  obtain rfl | rfl := direction.axis_cases axis
  · rw [steps, if_pos rfl]
    cases direction <;> rfl
  · cases direction
    all_goals
      simp only [rect, steps, Rect.low, Metrics.start, Metrics.size, Metrics.gap, Direction.growth,
        Direction.breadth, Prod.swap_prod_mk, half, hcast, reduceCtorEq, if_false]
      ring

theorem Cell.high_rect (m : Metrics Rat) (direction : Direction) (widest : Nat) (cell : Cell)
    (axis : Axis) : (cell.rect m direction widest).high axis =
      (cell.rect m direction widest).low axis + m.size axis := by
  cases axis <;> rfl

end Layered

namespace FlowGraph
open Layered

variable {graph : FlowGraph} {m : Metrics Rat} {place other d : Nat}

/-- How many steps a node of some depth stands from the start along an axis. -/
def steps (graph : FlowGraph) (place d : Nat) (axis : Axis) : Rat :=
  (cellAt graph.depths place d).steps graph.direction graph.widest axis

theorem steps_growth (graph : FlowGraph) (place d : Nat) :
    graph.steps place d graph.direction.growth = d :=
  if_pos rfl

theorem steps_breadth (graph : FlowGraph) (place d : Nat) :
    graph.steps place d graph.direction.breadth =
      ((graph.widest : Rat) - graph.depths.count d) / 2 + (graph.depths.take place).count d := by
  cases hd : graph.direction <;>
    simp [steps, Cell.steps, cellAt, hd, Direction.growth, Direction.breadth]

theorem lanes_growth (graph : FlowGraph) : graph.lanes graph.direction.growth = graph.layerCount :=
  if_pos rfl

theorem lanes_breadth (graph : FlowGraph) : graph.lanes graph.direction.breadth = graph.widest := by
  cases hd : graph.direction <;> simp [lanes, hd, Direction.growth, Direction.breadth]

theorem steps_bounds (h : graph.depths[place]? = some d) (axis : Axis) :
    0 ≤ graph.steps place d axis ∧ graph.steps place d axis + 1 ≤ graph.lanes axis := by
  have hm := List.mem_of_getElem? h
  obtain rfl | rfl := graph.direction.axis_cases axis
  · have hlt : (d : Rat) + 1 ≤ graph.layerCount := by exact_mod_cast mem_depths_iff.1 hm
    rw [steps_growth, lanes_growth]
    exact ⟨Nat.cast_nonneg d, hlt⟩
  · have hw : (graph.depths.count d : Rat) ≤ graph.widest := by exact_mod_cast count_le_widest d
    have hs : ((graph.depths.take place).count d : Rat) + 1 ≤ graph.depths.count d := by
      exact_mod_cast count_take_lt h
    have h0 : (0 : Rat) ≤ (graph.depths.take place).count d := Nat.cast_nonneg _
    rw [steps_breadth, lanes_breadth]
    constructor <;> linarith

theorem exists_depth_zero (hne : graph.nodes ≠ []) : 0 ∈ graph.depths := by
  obtain ⟨d, hd, -⟩ := exists_widest hne
  exact mem_depths_of_le hd (Nat.zero_le d)

/-- Along each axis a node stands at the start, and a node stands in the last lane. -/
theorem exists_ends (hne : graph.nodes ≠ []) (axis : Axis) :
    (∃ place d, graph.depths[place]? = some d ∧ graph.steps place d axis = 0) ∧
      ∃ place d, graph.depths[place]? = some d ∧
        graph.steps place d axis + 1 = graph.lanes axis := by
  obtain rfl | rfl := graph.direction.axis_cases axis
  · have hzero := exists_depth_zero hne
    have hpos := mem_depths_iff.1 hzero
    obtain ⟨first, hf⟩ := List.mem_iff_getElem?.1 hzero
    obtain ⟨last, hl⟩ := List.mem_iff_getElem?.1
      (mem_depths_iff.2 (Nat.sub_lt hpos Nat.one_pos))
    refine ⟨⟨first, 0, hf, ?_⟩, last, _, hl, ?_⟩
    · rw [steps_growth, Nat.cast_zero]
    · rw [steps_growth, lanes_growth, Nat.cast_sub hpos]
      ring
  · obtain ⟨d, hd, hw⟩ := exists_widest hne
    have hpos : 0 < graph.depths.count d := List.count_pos_iff.2 hd
    obtain ⟨first, hf, hfirst⟩ := exists_count_take hpos
    obtain ⟨last, hl, hlast⟩ := exists_count_take (Nat.sub_lt hpos Nat.one_pos)
    refine ⟨⟨first, d, hf, ?_⟩, last, d, hl, ?_⟩
    · rw [steps_breadth, hfirst, hw]
      ring
    · rw [steps_breadth, lanes_breadth, hlast, hw, Nat.cast_sub (hw ▸ hpos)]
      ring

/-- A node of some depth by the steps that it stands from the start. -/
structure Stands (m : Metrics Rat) (graph : FlowGraph) (place d : Nat) (r : Rect Rat) : Prop where
  depth : graph.depths[place]? = some d
  low : ∀ axis,
    r.low axis = m.start axis + graph.steps place d axis * (m.size axis + m.gap axis)
  high : ∀ axis, r.high axis = r.low axis + m.size axis

theorem stands_rect (m : Metrics Rat) (h : graph.depths[place]? = some d) : graph.Stands m place d
    ((cellAt graph.depths place d).rect m graph.direction graph.widest) where
  depth := h
  low := Cell.low_rect m graph.direction (count_le_widest d)
  high := Cell.high_rect m graph.direction graph.widest _

theorem exists_node (m : Metrics Rat) (h : graph.depths[place]? = some d) :
    ∃ r, (graph.layout m).nodes[place]? = some r ∧ graph.Stands m place d r := by
  refine ⟨_, ?_, stands_rect m h⟩
  rw [getElem?_nodes_layout, h, Option.map_some]

theorem exists_stands {r : Rect Rat} (h : (graph.layout m).nodes[place]? = some r) :
    ∃ d, graph.Stands m place d r := by
  rw [getElem?_nodes_layout] at h
  obtain ⟨d, hd, rfl⟩ := Option.map_eq_some_iff.1 h
  exact ⟨d, stands_rect m hd⟩

/-- What surrounds nodes reaches from the first step at which one of them stands to the last one. -/
theorem ends_of_union (hm : m.Usable) (axis : Axis) {first last : Rat} {rects : List (Rect Rat)}
    {around : Rect Rat} (hu : Rect.union rects = some around)
    (hall : ∀ r ∈ rects, ∃ place d, graph.Stands m place d r ∧
      first ≤ graph.steps place d axis ∧ graph.steps place d axis ≤ last)
    (hfirst : ∃ r ∈ rects, ∃ place d, graph.Stands m place d r ∧ graph.steps place d axis = first)
    (hlast : ∃ r ∈ rects, ∃ place d, graph.Stands m place d r ∧ graph.steps place d axis = last) :
    around.low axis = m.start axis + first * (m.size axis + m.gap axis) ∧
      around.high axis = m.start axis + last * (m.size axis + m.gap axis) + m.size axis := by
  have hpitch : 0 ≤ m.size axis + m.gap axis := hm.pitch_nonneg axis
  constructor
  · obtain ⟨hleast, s, hs, he⟩ := Rect.low_of_union hu axis
    obtain ⟨r, hr, place, d, hstart, hsteps⟩ := hfirst
    obtain ⟨other, e, hother, hle, -⟩ := hall s hs
    apply le_antisymm
    · rw [← hsteps, ← hstart.low]
      exact hleast r hr
    · rw [← he, hother.low]
      linarith [mul_le_mul_of_nonneg_right hle hpitch]
  · obtain ⟨hgreatest, s, hs, he⟩ := Rect.high_of_union hu axis
    obtain ⟨r, hr, place, d, hend, hsteps⟩ := hlast
    obtain ⟨other, e, hother, -, hle⟩ := hall s hs
    apply le_antisymm
    · rw [← he, hother.high, hother.low]
      linarith [mul_le_mul_of_nonneg_right hle hpitch]
    · rw [← hsteps, ← hend.low, ← hend.high]
      exact hgreatest r hr

/-- As many nodes as there are lanes, and the gaps between them. -/
def span (m : Metrics Rat) (graph : FlowGraph) (axis : Axis) : Rat :=
  graph.lanes axis * m.size axis + ((graph.lanes axis : Rat) - 1) * m.gap axis

theorem exists_bounds (hm : m.Usable) (hne : graph.nodes ≠ []) : ∃ around,
    Rect.union (graph.layout m).nodes = some around ∧ ∀ axis,
      around.low axis = m.start axis ∧ around.high axis = m.start axis + graph.span m axis := by
  have hnodes : (graph.layout m).nodes ≠ [] := by
    rw [← List.length_pos_iff, length_nodes_layout]
    exact List.length_pos_iff.2 hne
  obtain ⟨around, hu⟩ := Rect.exists_union hnodes
  refine ⟨around, hu, fun axis => ?_⟩
  obtain ⟨⟨first, d, hf, hfirst⟩, last, e, hl, hlast⟩ := exists_ends hne axis
  obtain ⟨s, hs, hstart⟩ := exists_node m hf
  obtain ⟨t, ht, hend⟩ := exists_node m hl
  have hall : ∀ r ∈ (graph.layout m).nodes, ∃ place d, graph.Stands m place d r ∧
      0 ≤ graph.steps place d axis ∧ graph.steps place d axis ≤ (graph.lanes axis : Rat) - 1 := by
    intro r hmem
    obtain ⟨place, hp⟩ := List.mem_iff_getElem?.1 hmem
    obtain ⟨d, hd⟩ := exists_stands hp
    obtain ⟨hlo, hhi⟩ := steps_bounds hd.depth axis
    exact ⟨place, d, hd, hlo, by linarith⟩
  obtain ⟨hlow, hhigh⟩ := ends_of_union hm axis hu hall
    ⟨s, List.mem_of_getElem? hs, first, d, hstart, hfirst⟩
    ⟨t, List.mem_of_getElem? ht, last, e, hend, by linarith⟩
  rw [hlow, hhigh, span]
  constructor <;> ring

theorem extent_eq {around : Rect Rat} (hu : Rect.union (graph.layout m).nodes = some around)
    (axis : Axis) : (graph.layout m).extent axis = around.high axis - around.low axis := by
  have hw : (graph.layout m).width =
      ((Rect.union (graph.layout m).nodes).map Rect.width).getD 0 := rfl
  have hh : (graph.layout m).height =
      ((Rect.union (graph.layout m).nodes).map Rect.height).getD 0 := rfl
  cases axis
  · simp [Layout.extent, hw, hu, Rect.high, Rect.low, Rect.right]
  · simp [Layout.extent, hh, hu, Rect.high, Rect.low, Rect.bottom]

theorem extent_layout (hm : m.Usable) (hne : graph.nodes ≠ []) (axis : Axis) :
    (graph.layout m).extent axis = graph.span m axis := by
  obtain ⟨around, hu, hends⟩ := exists_bounds hm hne
  obtain ⟨hlow, hhigh⟩ := hends axis
  rw [extent_eq hu, hlow, hhigh]
  ring

/-- Of two nodes in a layer the later one stands a step further at least. -/
theorem steps_breadth_lt (h : graph.depths[place]? = some d) (hlt : place < other) :
    graph.steps place d graph.direction.breadth + 1 ≤
      graph.steps other d graph.direction.breadth := by
  have hslot : ((graph.depths.take place).count d : Rat) + 1 ≤
      (graph.depths.take other).count d := by
    exact_mod_cast count_take_lt_count_take h hlt
  rw [steps_breadth, steps_breadth]
  linarith

/-- Nodes of different layers are a step apart along the one axis, and nodes of one layer along the
other. -/
theorem exists_step_apart {r s : Rect Rat} {e : Nat} (hlt : place < other)
    (hr : graph.Stands m place d r) (hs : graph.Stands m other e s) : ∃ axis,
      graph.steps place d axis + 1 ≤ graph.steps other e axis ∨
      graph.steps other e axis + 1 ≤ graph.steps place d axis := by
  by_cases hd : d = e
  · subst hd
    exact ⟨graph.direction.breadth, .inl (steps_breadth_lt hr.depth hlt)⟩
  · refine ⟨graph.direction.growth, ?_⟩
    rw [steps_growth, steps_growth]
    rcases Nat.lt_or_gt_of_ne hd with h | h
    · exact .inl (by exact_mod_cast h)
    · exact .inr (by exact_mod_cast h)

theorem gap_le_of_steps (hm : m.Usable) {r s : Rect Rat} {e : Nat} {axis : Axis}
    (hr : graph.Stands m place d r) (hs : graph.Stands m other e s)
    (h : graph.steps place d axis + 1 ≤ graph.steps other e axis) :
    r.high axis + m.gap axis ≤ s.low axis := by
  rw [hr.high, hr.low, hs.low]
  linarith [mul_le_mul_of_nonneg_right h (hm.pitch_nonneg axis)]

theorem pairwise_apart (hm : m.Usable) (graph : FlowGraph) :
    (graph.layout m).nodes.Pairwise fun r s => ∃ axis,
      r.high axis + m.gap axis ≤ s.low axis ∨ s.high axis + m.gap axis ≤ r.low axis := by
  rw [List.pairwise_iff_getElem]
  intro i j hi hj hlt
  obtain ⟨d, hr⟩ := exists_stands (List.getElem?_eq_getElem hi)
  obtain ⟨e, hs⟩ := exists_stands (List.getElem?_eq_getElem hj)
  obtain ⟨axis, h | h⟩ := exists_step_apart hlt hr hs
  · exact ⟨axis, .inl (gap_le_of_steps hm hr hs h)⟩
  · exact ⟨axis, .inr (gap_le_of_steps hm hs hr h)⟩

/-- In a layer the declared order is the order of places. -/
theorem low_lt_of_lt (hm : m.Usable) {r s : Rect Rat} (hlt : place < other)
    (hr : graph.Stands m place d r) (hs : graph.Stands m other d s) :
    r.low graph.direction.breadth < s.low graph.direction.breadth := by
  have hle := gap_le_of_steps hm hr hs (steps_breadth_lt hr.depth hlt)
  have hsize := hm.size_pos graph.direction.breadth
  have hgap := hm.gap_nonneg graph.direction.breadth
  rw [hr.high] at hle
  linarith

theorem mem_layer {r : Rect Rat} : r ∈ graph.layer (graph.layout m) d ↔
    ∃ place : Nat, graph.depths[place]? = some d ∧ (graph.layout m).nodes[place]? = some r := by
  simp only [layer, List.mem_map, List.mem_filter, decide_eq_true_eq]
  constructor
  · rintro ⟨⟨e, r⟩, ⟨hm, rfl⟩, rfl⟩
    obtain ⟨place, hz⟩ := List.mem_iff_getElem?.1 hm
    exact ⟨place, List.getElem?_zip_eq_some.1 hz⟩
  · rintro ⟨place, hp⟩
    have hz : (graph.depths.zip (graph.layout m).nodes)[place]? = some (d, r) :=
      List.getElem?_zip_eq_some.2 hp
    exact ⟨(d, r), ⟨List.mem_of_getElem? hz, rfl⟩, rfl⟩

/-- The middle of every layer is the middle of the largest one. -/
theorem middle_layer (hm : m.Usable) (hd : d ∈ graph.depths) : ∃ around,
    Rect.union (graph.layer (graph.layout m) d) = some around ∧
      around.middle graph.direction.breadth = m.start graph.direction.breadth +
        graph.span m graph.direction.breadth / 2 := by
  have hpos : 0 < graph.depths.count d := List.count_pos_iff.2 hd
  -- In its layer a node stands in the first place, and one in the last.
  have hslot : ∀ slot < graph.depths.count d, ∃ r ∈ graph.layer (graph.layout m) d, ∃ place e,
      graph.Stands m place e r ∧ graph.steps place e graph.direction.breadth =
        ((graph.widest : Rat) - graph.depths.count d) / 2 + slot := by
    intro slot hlt
    obtain ⟨place, hp, hc⟩ := exists_count_take hlt
    obtain ⟨r, hr, hs⟩ := exists_node m hp
    refine ⟨r, mem_layer.2 ⟨place, hp, hr⟩, place, d, hs, ?_⟩
    rw [steps_breadth, hc]
  have hall : ∀ r ∈ graph.layer (graph.layout m) d, ∃ place e, graph.Stands m place e r ∧
      ((graph.widest : Rat) - graph.depths.count d) / 2 + (0 : Nat) ≤
        graph.steps place e graph.direction.breadth ∧
      graph.steps place e graph.direction.breadth ≤
        ((graph.widest : Rat) - graph.depths.count d) / 2 + (graph.depths.count d - 1 : Nat) := by
    intro r hr
    obtain ⟨place, hp, hnode⟩ := mem_layer.1 hr
    obtain ⟨e, hs⟩ := exists_stands hnode
    obtain rfl : d = e := Option.some.inj (hp.symm.trans hs.depth)
    have hlt := count_take_lt hp
    refine ⟨place, d, hs, ?_, ?_⟩
    · rw [steps_breadth]
      gcongr
      exact Nat.zero_le _
    · rw [steps_breadth]
      gcongr
      omega
  obtain ⟨r, hr, -⟩ := hslot 0 hpos
  obtain ⟨around, hu⟩ := Rect.exists_union (List.ne_nil_of_mem hr)
  obtain ⟨hlow, hhigh⟩ := ends_of_union hm graph.direction.breadth hu hall (hslot 0 hpos)
    (hslot _ (Nat.sub_lt hpos Nat.one_pos))
  refine ⟨around, hu, ?_⟩
  rw [Rect.middle_eq, hlow, hhigh, span, lanes_breadth, Nat.cast_sub hpos]
  push_cast
  ring

end FlowGraph

/-- Two rectangles that have more than an edge in common. -/
def Rect.Overlaps (r s : Rect Rat) : Prop :=
  ∀ axis, r.low axis < s.high axis ∧ s.low axis < r.high axis

/-- A flowchart in layers: it starts where it should and ends after its lanes and the gaps between
them, no two nodes come closer than a gap, the nodes of a layer stand in their order, and every layer
in the middle. -/
structure FlowGraph.Arranged (m : Metrics Rat) (graph : FlowGraph) (layout : Layout Rat) :
    Prop where
  start : ∀ axis, (layout.nodes.map (·.low axis)).min? = some (m.start axis)
  extent : ∀ axis, layout.extent axis =
    graph.lanes axis * m.size axis + ((graph.lanes axis : Rat) - 1) * m.gap axis
  inside : ∀ r ∈ layout.nodes, ∀ axis,
    m.start axis ≤ r.low axis ∧ r.high axis ≤ m.start axis + layout.extent axis
  apart : layout.nodes.Pairwise fun r s => ∃ axis,
    r.high axis + m.gap axis ≤ s.low axis ∨ s.high axis + m.gap axis ≤ r.low axis
  disjoint : layout.nodes.Pairwise fun r s => ¬ r.Overlaps s
  ordered : ∀ (place other d : Nat) (r s : Rect Rat), place < other →
    graph.depths[place]? = some d → graph.depths[other]? = some d →
    layout.nodes[place]? = some r → layout.nodes[other]? = some s →
    r.low graph.direction.breadth < s.low graph.direction.breadth
  centred : ∀ d ∈ graph.depths, ∃ around, Rect.union (graph.layer layout d) = some around ∧
    around.middle graph.direction.breadth =
      m.start graph.direction.breadth + layout.extent graph.direction.breadth / 2

/-- In usable measures every flowchart with a node is arranged in layers. -/
theorem flowcharts_stand_in_layers {m : Metrics Rat} (hm : m.Usable) {graph : FlowGraph}
    (hne : graph.nodes ≠ []) : graph.Arranged m (graph.layout m) := by
  obtain ⟨around, hu, hends⟩ := FlowGraph.exists_bounds hm hne
  have hextent := FlowGraph.extent_layout hm hne
  have hapart := FlowGraph.pairwise_apart hm graph
  refine ⟨?_, hextent, ?_, hapart, hapart.imp ?_, ?_, ?_⟩
  · intro axis
    rw [← Rect.map_low_union, hu, Option.map_some, (hends axis).1]
  · intro r hr axis
    obtain ⟨hlow, hhigh⟩ := hends axis
    rw [hextent, ← hhigh, ← hlow]
    exact ⟨(Rect.low_of_union hu axis).1 r hr, (Rect.high_of_union hu axis).1 r hr⟩
  · rintro r s ⟨axis, h⟩ ho
    have hgap := hm.gap_nonneg axis
    obtain ⟨hrs, hsr⟩ := ho axis
    rcases h with h | h <;> linarith
  · intro place other d r s hlt hd he hr hs
    obtain ⟨e, hrs⟩ := FlowGraph.exists_stands hr
    obtain ⟨f, hss⟩ := FlowGraph.exists_stands hs
    obtain rfl : d = e := Option.some.inj (hd.symm.trans hrs.depth)
    obtain rfl : d = f := Option.some.inj (he.symm.trans hss.depth)
    exact FlowGraph.low_lt_of_lt hm hlt hrs hss
  · intro d hd
    rw [hextent]
    exact FlowGraph.middle_layer hm hd

/-- A node over two others, of which one leads back. -/
def fork : FlowGraph where
  direction := .topToBottom
  nodes := ["root", "a", "b", "end"].map fun id => ⟨id, id, .rectangle, false, none⟩
  edges := [("root", "a"), ("root", "b"), ("b", "end"), ("end", "b")].map fun (source, target) =>
    ⟨source, target, none, .solid, .none, .arrow⟩

theorem fork_stands_in_layers : fork.nodes ≠ [] ∧ (Metrics.flow : Metrics Rat).Usable ∧
    (fork.layout (Metrics.flow : Metrics Rat)).width = 440 ∧
    (fork.layout (Metrics.flow : Metrics Rat)).height = 450 := by
  have hne : fork.nodes ≠ [] := by decide
  have hm : (Metrics.flow : Metrics Rat).Usable := by constructor <;> decide
  have h := (flowcharts_stand_in_layers hm hne).extent
  have hwidth := h .horizontal
  have hheight := h .vertical
  have hlanes : fork.lanes .horizontal = 2 ∧ fork.lanes .vertical = 3 := by decide +kernel
  rw [hlanes.1] at hwidth
  rw [hlanes.2] at hheight
  refine ⟨hne, hm, hwidth.trans ?_, hheight.trans ?_⟩ <;> decide +kernel

end Chartboard
