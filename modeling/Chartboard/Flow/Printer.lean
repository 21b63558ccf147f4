import Chartboard.Flow.Graph

namespace Chartboard
open Chartboard.Flow

namespace Flow

def quoted (s : String) : List Char :=
  '"' :: s.toList ++ ['"']

/-- The first brackets that draw a shape. -/
def bracketOf (shape : Shape) : Bracket :=
  (brackets.find? (·.shape == shape)).getD ⟨['['], [']'], .rectangle⟩

/-- The shortest operator with a stroke and a cap, if there is one. -/
def operatorOf? : Stroke → Cap → Option (List Char)
  | .solid, .arrow => some ['-', '-', '>']
  | .solid, .none => some ['-', '-', '-']
  | .solid, .filledCircle => some ['-', '-', 'o']
  | .solid, .cross => some ['-', '-', 'x']
  | .dotted, .arrow => some ['-', '.', '-', '>']
  | .dotted, .none => some ['-', '.', '-']
  | .thick, .arrow => some ['=', '=', '>']
  | .thick, .none => some ['=', '=', '=']
  | _, _ => none

end Flow

/-- A node with its label in quotes between the brackets of its shape. -/
def Node.declaration (node : Node) : List Char :=
  let bracket := bracketOf node.shape
  node.id.toList ++ bracket.opener ++ quoted node.label ++ bracket.closer

/-- An edge with its label in quotes between bars. An edge without an operator is no line. -/
def Edge.line (edge : Edge) : List Char :=
  edge.source.toList ++ (operatorOf? edge.stroke edge.endCap).getD [] ++
    (edge.label.elim [] fun label => '|' :: quoted label ++ ['|']) ++ ' ' :: edge.target.toList

namespace FlowGraph

def header (graph : FlowGraph) : List Char :=
  "flowchart ".toList ++ match graph.direction with
    | .topToBottom => ['T', 'B']
    | .leftToRight => ['L', 'R']

def nodesIn (graph : FlowGraph) (group : Option Nat) : List Node :=
  graph.nodes.filter (·.group == group)

def groupLines (graph : FlowGraph) (place : Nat) (group : Group) : List (List Char) :=
  ("subgraph ".toList ++ group.id.toList ++ '[' :: quoted group.title ++ [']']) ::
    (graph.nodesIn (some place)).map Node.declaration ++ ["end".toList]

def renderedLines (graph : FlowGraph) : List (List Char) :=
  graph.header :: graph.groups.zipIdx.flatMap (fun (group, i) => graph.groupLines i group) ++
    (graph.nodesIn none).map Node.declaration ++ graph.edges.map Edge.line

def render (graph : FlowGraph) : List Char :=
  ['\n'].intercalate graph.renderedLines

end FlowGraph
end Chartboard
