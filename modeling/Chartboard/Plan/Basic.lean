import Chartboard.Diagram.Reader
import Chartboard.Layout.Basic
import Chartboard.Plan.Item

namespace Chartboard

/-- Boxes name their frame, and lines their ends, by place. -/
structure Plan (α : Type) where
  frames : List (FrameItem α)
  boxes : List (BoxItem α Nat)
  lines : List (LineItem Nat)
  width : α
  height : α
deriving DecidableEq

variable {α : Type} [Coordinate α]

def Frame.item (color : String) (frame : Frame α) : FrameItem α where
  title := some frame.title
  x := frame.rect.centerX
  y := frame.rect.centerY
  width := frame.rect.width
  height := frame.rect.height
  color := some color

def Rect.box (shape : Shape) (label color : String) (parent : Option Nat) (rect : Rect α) :
    BoxItem α Nat where
  shape
  stencil := false
  label
  x := rect.centerX
  y := rect.centerY
  width := rect.width
  height := rect.height
  color := some color
  borderColor := none
  parent

namespace FlowGraph

/-- The last frame that has a node among its members. -/
def parent? (frames : List (Frame α)) (node : Nat) : Option Nat :=
  frames.zipIdx.foldl (fun found (frame, i) =>
    if frame.members.contains node then some i else found) none

/-- A node as a basic shape, or as a stencil in the colours of its role. -/
def box (stencils : Bool) (node : Node) (parent : Option Nat) (rect : Rect α) : BoxItem α Nat :=
  let box := rect.box node.shape node.label node.shape.color parent
  if stencils then
    { box with
      stencil := true
      color := some node.shape.role.color
      borderColor := some node.shape.role.borderColor }
  else
    box

/-- Each node is one box, and each edge between known nodes one line. -/
def plan (stencils : Bool) (layout : Layout α) (graph : FlowGraph) : Plan α where
  frames := layout.frames.map (·.item Palette.group)
  boxes := (graph.nodes.zip layout.nodes).zipIdx.map fun ((node, rect), i) =>
    box stencils node (parent? layout.frames i) rect
  lines := graph.edges.filterMap fun edge =>
    (graph.ends? edge).map fun (source, target) => {
      source, target
      label := edge.label
      stroke := edge.stroke
      routing := .elbowed
      startCap := edge.startCap
      endCap := edge.endCap }
  width := layout.width
  height := layout.height

end FlowGraph

namespace SequenceDiagram

def header (p : Participant) (lifeline : Nat) (rect : Rect α) : BoxItem α Nat :=
  if p.actor then
    rect.box .circle p.label Palette.actor (some lifeline)
  else
    rect.box .rectangle p.label Palette.participant (some lifeline)

/-- The smallest size of a shape that a board takes. -/
def anchorSize : Nat := 8

/-- A small circle in the middle of a lifeline, at which a message starts or ends. -/
def anchor (frame : Frame α) (row : α) (lifeline : Nat) : BoxItem α Nat where
  shape := .circle
  stencil := false
  label := ""
  x := frame.rect.centerX
  y := row
  width := anchorSize
  height := anchorSize
  color := some Palette.anchor
  borderColor := none
  parent := some lifeline

/-- A message between known participants with the circles at its ends. -/
structure Crossing (α : Type) where
  message : Message
  source : BoxItem α Nat
  target : BoxItem α Nat

def crossing? (layout : Layout α) (diagram : SequenceDiagram) (message : Message) (row : α) :
    Option (Crossing α) := do
  let (source, target) ← diagram.ends? message
  return {
    message
    source := anchor (← layout.frames[source]?) row source
    target := anchor (← layout.frames[target]?) row target }

def crossings (layout : Layout α) (diagram : SequenceDiagram) : List (Crossing α) :=
  (diagram.messages.zip layout.rows).filterMap fun (message, row) =>
    diagram.crossing? layout message row

/-- The line of a message, whose circles are the box at a place and the one after it. -/
def Crossing.line (place : Nat) (c : Crossing α) : LineItem Nat where
  source := place
  target := place + 1
  label := if c.message.text.isEmpty then none else some c.message.text
  stroke := c.message.arrow.stroke
  routing := .straight
  startCap := .none
  endCap := c.message.arrow.head.cap

/-- The heads of all lifelines come first, and after them the two circles of each message. -/
def plan (layout : Layout α) (diagram : SequenceDiagram) : Plan α :=
  let headers := (diagram.participants.zip layout.nodes).zipIdx.map fun ((p, rect), i) =>
    header p i rect
  let crossings := diagram.crossings layout
  { frames := layout.frames.map (·.item Palette.lifeline)
    boxes := headers ++ crossings.flatMap fun c => [c.source, c.target]
    lines := crossings.zipIdx.map fun (c, i) => c.line (headers.length + 2 * i)
    width := layout.width
    height := layout.height }

end SequenceDiagram

/-- Stencils are for the nodes of flowcharts only. -/
def Diagram.plan (stencils : Bool) (layout : Layout α) : Diagram → Plan α
  | .flow graph => graph.plan stencils layout
  | .sequence diagram => diagram.plan layout

/-- The plan for a diagram laid out in the measures of its family. -/
def Diagram.planned (stencils : Bool) (o : Overrides α) (diagram : Diagram) : Plan α :=
  diagram.plan stencils (diagram.layout (diagram.metrics o))

/-- The plan for a text. -/
def Plan.ofText (stencils : Bool) (o : Overrides α) (text : List Char) : Except Refusal (Plan α) :=
  (Diagram.read text).map (·.planned stencils o)

end Chartboard
