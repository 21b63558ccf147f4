import Chartboard.Diagram.Basic
import Chartboard.Layout.Metrics
import Chartboard.Layout.Rect

namespace Chartboard

/-- The edges between known nodes, as pairs of places. -/
def FlowGraph.links (graph : FlowGraph) : List (Nat × Nat) :=
  graph.edges.filterMap graph.ends?

namespace Depth

/-- Each node is a root until a link leads to it. -/
def roots (count : Nat) (links : List (Nat × Nat)) : Array (Option Nat) :=
  links.foldl (fun found link => found.setIfInBounds link.2 none) (Array.replicate count (some 0))

/-- Follows the links from the nodes at one depth to the nodes that have none yet. -/
def spread (links : List (Nat × Nat)) (depth : Nat) (found : Array (Option Nat)) :
    Array (Option Nat) :=
  links.foldl (fun found link =>
    match found[link.1]?, found[link.2]? with
    | some (some d), some none =>
      if d = depth then found.setIfInBounds link.2 (some (depth + 1)) else found
    | _, _ => found) found

/-- Goes on depth by depth, at most for the given number of rounds, until no node is found. -/
def search (links : List (Nat × Nat)) : Nat → Nat → Array (Option Nat) → Array (Option Nat)
  | 0, _, found => found
  | rounds + 1, depth, found =>
    if found.contains (some depth) then
      search links rounds (depth + 1) (spread links depth found)
    else
      found

end Depth

/-- The length of a shortest way from a root to each node; a node without one is at depth zero. -/
def FlowGraph.depths (graph : FlowGraph) : List Nat :=
  let count := graph.nodes.length
  let links := graph.links
  (Depth.search links count 0 (Depth.roots count links)).toList.map (·.getD 0)

/-- A group or a lifeline with the nodes drawn in it. -/
structure Frame (α : Type) where
  title : String
  rect : Rect α
  members : List Nat
deriving DecidableEq

/-- There is one rectangle for each node or participant, in their order, and one row for each
message. -/
structure Layout (α : Type) where
  nodes : List (Rect α)
  frames : List (Frame α)
  rows : List α
  width : α
  height : α
deriving DecidableEq

variable {α : Type} [Coordinate α]

def Layout.within (bounds : Option (Rect α)) (nodes : List (Rect α)) (frames : List (Frame α))
    (rows : List α) : Layout α where
  nodes
  frames
  rows
  width := (bounds.map Rect.width).getD (0 : Nat)
  height := (bounds.map Rect.height).getD (0 : Nat)

namespace Layered

/-- How many earlier nodes have the same depth. -/
def slotsFrom (seen : List Nat) : List Nat → List Nat
  | [] => []
  | d :: ds => seen.count d :: slotsFrom (d :: seen) ds

/-- The place of a node in its layer, and the number of nodes there. -/
structure Cell where
  depth : Nat
  slot : Nat
  layerSize : Nat

def cells (depths : List Nat) : List Cell :=
  (depths.zip (slotsFrom [] depths)).map fun (d, slot) => ⟨d, slot, depths.count d⟩

/-- A layer stands in the middle of the widest one. -/
def Cell.rect (m : Metrics α) (direction : Direction) (widest : Nat) (cell : Cell) : Rect α :=
  let stepX := m.nodeWidth + m.spacingX
  let stepY := m.nodeHeight + m.spacingY
  let along := fun (depthStep breadthStep : α) =>
    (cell.depth * depthStep,
      half ((widest - cell.layerSize : Nat) * breadthStep) + cell.slot * breadthStep)
  let (dx, dy) := match direction with
    | .topToBottom => (along stepY stepX).swap
    | .leftToRight => along stepX stepY
  ⟨m.startX + dx, m.startY + dy, m.nodeWidth, m.nodeHeight⟩

end Layered

/-- Room between a frame and its members. -/
def framePadding : Nat := 40

/-- Room above the members for the title of their frame. -/
def frameTitle : Nat := 30

/-- The frame of a group that has members. -/
def Group.frame? (graph : FlowGraph) (nodes : List (Rect α)) (group : Group) : Option (Frame α) :=
  let members := group.members.filterMap graph.position?
  (Rect.union (members.filterMap (nodes[·]?))).map fun inner =>
    { title := group.title
      rect := {
        x := inner.x - framePadding
        y := inner.y - framePadding - frameTitle
        width := inner.width + (2 : Nat) * framePadding
        height := inner.height + (2 : Nat) * framePadding + frameTitle }
      members }

/-- A flowchart stands in layers of one depth each. -/
def FlowGraph.layout (m : Metrics α) (graph : FlowGraph) : Layout α :=
  let cells := Layered.cells graph.depths
  let widest := (cells.map (·.layerSize)).foldl max 0
  let nodes := cells.map (·.rect m graph.direction widest)
  .within (Rect.union nodes) nodes (graph.groups.filterMap (·.frame? graph nodes)) []

/-- The box at the head of a lifeline: a cell, or for an actor a square in its middle. -/
def Participant.header (m : Metrics α) (x : α) (p : Participant) : Rect α :=
  if p.actor then
    let side := least m.nodeHeight m.nodeWidth
    ⟨x + half (m.nodeWidth - side), m.startY, side, side⟩
  else
    ⟨x, m.startY, m.nodeWidth, m.nodeHeight⟩

/-- The height of each message, half a row below the one before it. -/
def SequenceDiagram.rows (m : Metrics α) (diagram : SequenceDiagram) : List α :=
  (List.range diagram.messages.length).map fun (row : Nat) =>
    m.startY + m.nodeHeight + ((row : α) + half ((1 : Nat) : α)) * m.spacingY

/-- Participants stand in columns, each over a lifeline as long as the messages need. -/
def SequenceDiagram.layout (m : Metrics α) (diagram : SequenceDiagram) : Layout α :=
  let bottom := m.startY + m.nodeHeight + ((max diagram.messages.length 1 : Nat) : α) * m.spacingY
  let columns := diagram.participants.zipIdx.map fun (p, i) =>
    (p, i, m.startX + (i : α) * (m.nodeWidth + m.spacingX))
  let frames := columns.map fun (p, i, x) =>
    ⟨p.label, ⟨x, m.startY, m.nodeWidth, bottom - m.startY⟩, [i]⟩
  .within (Rect.union (frames.map Frame.rect)) (columns.map fun (p, _, x) => p.header m x) frames
    (if diagram.participants.isEmpty then [] else diagram.rows m)

def Diagram.layout (m : Metrics α) : Diagram → Layout α
  | .flow graph => graph.layout m
  | .sequence diagram => diagram.layout m

/-- The measures for a diagram of one family. -/
def Diagram.metrics (diagram : Diagram) (o : Overrides α) : Metrics α :=
  (Metrics.standard diagram.family).adjust o

end Chartboard
