import Chartboard.Plan.Basic
import Chartboard.Proofs.Layout.Lifelines

namespace Chartboard

def Metrics.moved (dx dy : Rat) (m : Metrics Rat) : Metrics Rat :=
  { m with startX := m.startX + dx, startY := m.startY + dy }

def Rect.moved (dx dy : Rat) (r : Rect Rat) : Rect Rat :=
  { r with x := r.x + dx, y := r.y + dy }

def Frame.moved (dx dy : Rat) (frame : Frame Rat) : Frame Rat :=
  { frame with rect := frame.rect.moved dx dy }

def Layout.moved (dx dy : Rat) (layout : Layout Rat) : Layout Rat :=
  { layout with
    nodes := layout.nodes.map (Rect.moved dx dy)
    frames := layout.frames.map (Frame.moved dx dy)
    rows := layout.rows.map (· + dy) }

def FrameItem.moved (dx dy : Rat) (item : FrameItem Rat) : FrameItem Rat :=
  { item with x := item.x + dx, y := item.y + dy }

def BoxItem.moved (dx dy : Rat) (item : BoxItem Rat Nat) : BoxItem Rat Nat :=
  { item with x := item.x + dx, y := item.y + dy }

/-- A plan in another place. Sizes, texts, colours and references stay, and so do the lines. -/
def Plan.moved (dx dy : Rat) (plan : Plan Rat) : Plan Rat :=
  { plan with
    frames := plan.frames.map (FrameItem.moved dx dy)
    boxes := plan.boxes.map (BoxItem.moved dx dy) }

def SequenceDiagram.Crossing.moved (dx dy : Rat) (c : Crossing Rat) : Crossing Rat :=
  { c with source := c.source.moved dx dy, target := c.target.moved dx dy }

variable {dx dy : Rat} {m : Metrics Rat}

namespace Rect

variable (dx dy : Rat) (r s : Rect Rat)

@[simp] theorem width_moved : (r.moved dx dy).width = r.width := rfl

@[simp] theorem height_moved : (r.moved dx dy).height = r.height := rfl

theorem right_moved : (r.moved dx dy).right = r.right + dx :=
  add_right_comm r.x dx r.width

theorem bottom_moved : (r.moved dx dy).bottom = r.bottom + dy :=
  add_right_comm r.y dy r.height

@[simp] theorem centerX_moved : (r.moved dx dy).centerX = r.centerX + dx :=
  add_right_comm r.x dx (half r.width)

@[simp] theorem centerY_moved : (r.moved dx dy).centerY = r.centerY + dy :=
  add_right_comm r.y dy (half r.height)

theorem least_add_right (a b d : Rat) : least (a + d) (b + d) = least a b + d := by
  rw [least_eq_min, least_eq_min, min_add_add_right]

theorem greatest_add_right (a b d : Rat) : greatest (a + d) (b + d) = greatest a b + d := by
  rw [greatest_eq_max, greatest_eq_max, max_add_add_right]

theorem join_moved : (r.moved dx dy).join (s.moved dx dy) = (r.join s).moved dx dy := by
  simp only [join, right_moved, bottom_moved]
  simp only [moved, least_add_right, greatest_add_right, add_sub_add_right_eq_sub]

theorem union_moved (rects : List (Rect Rat)) :
    union (rects.map (moved dx dy)) = (union rects).map (moved dx dy) :=
  union_map (join_moved dx dy) rects

end Rect

theorem Layout.within_moved (dx dy : Rat) (bounds : Option (Rect Rat)) (nodes : List (Rect Rat))
    (frames : List (Frame Rat)) (rows : List Rat) :
    within (bounds.map (Rect.moved dx dy)) (nodes.map (Rect.moved dx dy))
      (frames.map (Frame.moved dx dy)) (rows.map (· + dy)) =
    (within bounds nodes frames rows).moved dx dy := by
  simp [within, moved, Option.map_map, Function.comp_def, Rect.moved]

section Flowcharts

theorem Layered.Cell.rect_moved (direction : Direction) (widest : Nat) (cell : Cell) :
    cell.rect (m.moved dx dy) direction widest = (cell.rect m direction widest).moved dx dy := by
  cases direction <;>
    simp only [rect, Metrics.moved, Rect.moved, Prod.swap_prod_mk, Rect.mk.injEq, and_true] <;>
    exact ⟨add_right_comm _ _ _, add_right_comm _ _ _⟩

/-- The room around the members of a group is the same everywhere. -/
theorem Group.frame?_moved (graph : FlowGraph) (nodes : List (Rect Rat)) (group : Group) :
    group.frame? graph (nodes.map (Rect.moved dx dy)) =
      (group.frame? graph nodes).map (Frame.moved dx dy) := by
  have hmembers : (group.members.filterMap graph.position?).filterMap
        ((nodes.map (Rect.moved dx dy))[·]?) =
      ((group.members.filterMap graph.position?).filterMap (nodes[·]?)).map (Rect.moved dx dy) := by
    rw [List.map_filterMap]
    exact List.filterMap_congr fun place _ => List.getElem?_map
  simp only [frame?, hmembers, Rect.union_moved, Option.map_map]
  congr 1
  funext inner
  simp only [Function.comp_apply, Rect.moved, Frame.moved, Frame.mk.injEq, Rect.mk.injEq, true_and,
    and_true]
  constructor <;> ring

theorem FlowGraph.layout_moved (graph : FlowGraph) :
    graph.layout (m.moved dx dy) = (graph.layout m).moved dx dy := by
  have hnodes : ∀ widest, ((Layered.cells graph.depths).map
        (·.rect (m.moved dx dy) graph.direction widest)) =
      ((Layered.cells graph.depths).map (·.rect m graph.direction widest)).map
        (Rect.moved dx dy) := by
    intro widest
    rw [List.map_map]
    exact List.map_congr_left fun cell _ => cell.rect_moved graph.direction widest
  simp only [layout, hnodes, Rect.union_moved, Group.frame?_moved, ← Layout.within_moved,
    List.map_filterMap, List.map_nil]

theorem FlowGraph.parent?_moved (frames : List (Frame Rat)) (node : Nat) :
    parent? (frames.map (Frame.moved dx dy)) node = parent? frames node := by
  simp only [parent?, List.zipIdx_map, List.foldl_map]
  rfl

theorem FlowGraph.box_moved (stencils : Bool) (node : Node) (parent : Option Nat)
    (rect : Rect Rat) : box stencils node parent (rect.moved dx dy) =
      (box stencils node parent rect).moved dx dy := by
  cases stencils <;> simp [box, Rect.box, BoxItem.moved]

end Flowcharts

theorem Frame.item_moved (color : String) (frame : Frame Rat) :
    (frame.moved dx dy).item color = (frame.item color).moved dx dy := by
  simp [item, moved, FrameItem.moved]

theorem FlowGraph.plan_moved (stencils : Bool) (layout : Layout Rat) (graph : FlowGraph) :
    graph.plan stencils (layout.moved dx dy) = (graph.plan stencils layout).moved dx dy := by
  simp [plan, Plan.moved, Layout.moved, parent?_moved, List.zip_map_right, List.zipIdx_map,
    Function.comp_def, Frame.item_moved, box_moved]

section Sequences

theorem Participant.header_moved (x : Rat) (p : Participant) :
    p.header (m.moved dx dy) (x + dx) = (p.header m x).moved dx dy := by
  unfold header
  split
  · simp only [Metrics.moved, Rect.moved, Rect.mk.injEq, and_true]
    exact add_right_comm x dx _
  · rfl

namespace SequenceDiagram

variable (diagram : SequenceDiagram)

theorem columnStart_moved (place : Nat) :
    columnStart (m.moved dx dy) place = columnStart m place + dx :=
  add_right_comm m.startX dx _

theorem lifeline_moved (place : Nat) :
    diagram.lifeline (m.moved dx dy) place = (diagram.lifeline m place).moved dx dy :=
  congrArg (Rect.mk · _ _ _) (columnStart_moved place)

theorem nodes_moved : (diagram.layout (m.moved dx dy)).nodes =
    (diagram.layout m).nodes.map (Rect.moved dx dy) := by
  refine List.ext_getElem? fun place => ?_
  rw [List.getElem?_map, getElem?_nodes_layout, getElem?_nodes_layout, Option.map_map,
    columnStart_moved]
  congr 1
  funext p
  exact p.header_moved _

theorem frames_moved : (diagram.layout (m.moved dx dy)).frames =
    (diagram.layout m).frames.map (Frame.moved dx dy) := by
  refine List.ext_getElem? fun place => ?_
  rw [List.getElem?_map, getElem?_frames_layout, getElem?_frames_layout, Option.map_map,
    lifeline_moved]
  rfl

theorem rows_moved : (diagram.layout (m.moved dx dy)).rows =
    (diagram.layout m).rows.map (· + dy) := by
  have hrow : ∀ room : Rat, m.startY + dy + m.nodeHeight + room =
      m.startY + m.nodeHeight + room + dy := by
    intro room
    ring
  simp only [layout, Layout.within, rows]
  split
  · rfl
  · rw [List.map_map]
    exact List.map_congr_left fun row _ => hrow _

theorem layout_moved : diagram.layout (m.moved dx dy) = (diagram.layout m).moved dx dy := by
  have hself : ∀ m : Metrics Rat, diagram.layout m =
      .within (Rect.union ((diagram.layout m).frames.map Frame.rect)) (diagram.layout m).nodes
        (diagram.layout m).frames (diagram.layout m).rows :=
    fun _ => rfl
  have hrects : ((diagram.layout m).frames.map (Frame.moved dx dy)).map Frame.rect =
      ((diagram.layout m).frames.map Frame.rect).map (Rect.moved dx dy) := by
    rw [List.map_map, List.map_map]
    rfl
  rw [hself, nodes_moved, frames_moved, rows_moved, hrects, Rect.union_moved, Layout.within_moved,
    ← hself]

variable (layout : Layout Rat)

/-- Only the middle of its lifeline decides on where a circle stands. -/
theorem anchor_moved (frame : Frame Rat) (row : Rat) (lifeline : Nat) :
    anchor (frame.moved dx dy) (row + dy) lifeline = (anchor frame row lifeline).moved dx dy := by
  simp [anchor, Frame.moved, BoxItem.moved]

theorem crossing?_moved (message : Message) (row : Rat) :
    diagram.crossing? (layout.moved dx dy) message (row + dy) =
      (diagram.crossing? layout message row).map (Crossing.moved dx dy) := by
  unfold crossing?
  cases diagram.ends? message with
  | none => rfl
  | some ends =>
    simp only [Layout.moved, List.getElem?_map, Option.bind_eq_bind, Option.bind_some]
    cases layout.frames[ends.1]? with
    | none => rfl
    | some first =>
      cases layout.frames[ends.2]? with
      | none => rfl
      | some second => simp [anchor_moved, Crossing.moved]

theorem crossings_moved : diagram.crossings (layout.moved dx dy) =
    (diagram.crossings layout).map (Crossing.moved dx dy) := by
  unfold crossings
  rw [Layout.moved, List.zip_map_right, List.filterMap_map, List.map_filterMap]
  exact List.filterMap_congr fun x _ => diagram.crossing?_moved layout x.1 x.2

theorem header_item_moved (p : Participant) (lifeline : Nat) (rect : Rect Rat) :
    header p lifeline (rect.moved dx dy) = (header p lifeline rect).moved dx dy := by
  unfold header
  split <;> simp [Rect.box, BoxItem.moved]

theorem plan_moved : diagram.plan (layout.moved dx dy) = (diagram.plan layout).moved dx dy := by
  have hframes : (layout.moved dx dy).frames.map (·.item Palette.lifeline) =
      (layout.frames.map (·.item Palette.lifeline)).map (FrameItem.moved dx dy) := by
    simp [Layout.moved, Frame.item_moved]
  have hheads : (diagram.participants.zip (layout.moved dx dy).nodes).zipIdx.map
        (fun ((p, rect), i) => header p i rect) =
      ((diagram.participants.zip layout.nodes).zipIdx.map fun ((p, rect), i) =>
        header p i rect).map (BoxItem.moved dx dy) := by
    simp [Layout.moved, List.zip_map_right, List.zipIdx_map, header_item_moved]
  have hcircles : ((diagram.crossings layout).map (Crossing.moved dx dy)).flatMap
        (fun c => [c.source, c.target]) =
      ((diagram.crossings layout).flatMap fun c => [c.source, c.target]).map
        (BoxItem.moved dx dy) := by
    simp [List.flatMap_map, List.map_flatMap, Crossing.moved]
  simp only [plan, Plan.moved, crossings_moved, hframes, hheads, hcircles, List.map_append,
    List.length_map, List.zipIdx_map, List.map_map]
  rfl

end SequenceDiagram

end Sequences

/-- Whatever is drawn and in whatever measures: to start elsewhere moves every frame, box and row by
as much, and changes nothing else. -/
theorem plans_move_with_their_start (stencils : Bool) (m : Metrics Rat) (dx dy : Rat)
    (diagram : Diagram) :
    diagram.layout (m.moved dx dy) = (diagram.layout m).moved dx dy ∧
      diagram.plan stencils (diagram.layout (m.moved dx dy)) =
        (diagram.plan stencils (diagram.layout m)).moved dx dy := by
  have hlayout : diagram.layout (m.moved dx dy) = (diagram.layout m).moved dx dy := by
    cases diagram with
    | flow graph => exact graph.layout_moved
    | sequence diagram => exact diagram.layout_moved
  refine ⟨hlayout, ?_⟩
  rw [hlayout]
  cases diagram with
  | flow graph => exact graph.plan_moved stencils _
  | sequence diagram => exact diagram.plan_moved _

end Chartboard
