import Chartboard.Diagram.Vocabulary

namespace Chartboard

structure Node where
  id : String
  label : String
  shape : Shape
  /-- Whether brackets have given the label and the shape. -/
  annotated : Bool
  /-- The group in which the node was first mentioned. -/
  group : Option Nat
deriving DecidableEq

structure Edge where
  source : String
  target : String
  label : Option String
  stroke : Stroke
  startCap : Cap
  endCap : Cap
deriving DecidableEq

structure Group where
  id : String
  title : String
  members : List String
deriving DecidableEq

/-- Nodes stand in the order of their first mention, one for each id. -/
structure FlowGraph where
  direction : Direction
  nodes : List Node := []
  edges : List Edge := []
  groups : List Group := []
deriving DecidableEq

/-- Adds a node, in place of one with the same id if there is one. -/
def FlowGraph.put (graph : FlowGraph) (node : Node) : FlowGraph :=
  if graph.nodes.any (·.id == node.id) then
    { graph with nodes := graph.nodes.map fun n => if n.id == node.id then node else n }
  else
    { graph with nodes := graph.nodes ++ [node] }

def FlowGraph.position? (graph : FlowGraph) (id : String) : Option Nat :=
  graph.nodes.findIdx? (·.id == id)

/-- An edge whose two ends are known nodes, as their places. -/
def FlowGraph.ends? (graph : FlowGraph) (edge : Edge) : Option (Nat × Nat) := do
  return (← graph.position? edge.source, ← graph.position? edge.target)

structure Participant where
  id : String
  label : String
  actor : Bool
deriving DecidableEq

inductive Activation where
  | activate
  | deactivate
deriving DecidableEq

structure Message where
  sender : String
  receiver : String
  text : String
  arrow : Arrow
  activation : Option Activation
deriving DecidableEq

/-- Participants stand in the order of their first appearance, one for each id. -/
structure SequenceDiagram where
  participants : List Participant := []
  messages : List Message := []
deriving DecidableEq

def SequenceDiagram.put (diagram : SequenceDiagram) (p : Participant) : SequenceDiagram :=
  if diagram.participants.any (·.id == p.id) then
    { diagram with
      participants := diagram.participants.map fun q => if q.id == p.id then p else q }
  else
    { diagram with participants := diagram.participants ++ [p] }

def SequenceDiagram.position? (diagram : SequenceDiagram) (id : String) : Option Nat :=
  diagram.participants.findIdx? (·.id == id)

def SequenceDiagram.ends? (diagram : SequenceDiagram) (message : Message) : Option (Nat × Nat) := do
  return (← diagram.position? message.sender, ← diagram.position? message.receiver)

inductive Diagram where
  | flow (graph : FlowGraph)
  | sequence (diagram : SequenceDiagram)
deriving DecidableEq

namespace Diagram

def family : Diagram → Family
  | .flow _ => .flow
  | .sequence _ => .sequence

/-- Participants always stand from left to right. -/
def direction : Diagram → Direction
  | .flow graph => graph.direction
  | .sequence _ => .leftToRight

def nodeCount : Diagram → Nat
  | .flow graph => graph.nodes.length
  | .sequence diagram => diagram.participants.length

def edgeCount : Diagram → Nat
  | .flow graph => graph.edges.length
  | .sequence diagram => diagram.messages.length

end Diagram
end Chartboard
