import Chartboard.Diagram.Basic
import Chartboard.Flow.Statement
import Chartboard.Text.Search

namespace Chartboard.Flow
open Text

inductive Line where
  | close
  /-- A group may leave out its id and its title. -/
  | opening (id title : List Char)
  | statement (s : Statement)
  | other
deriving DecidableEq

/-- The id and the title of a group: a title in brackets after the id, or words that are both. -/
def heading (cs : List Char) : List Char × List Char :=
  match cut ['['] cs with
  | some (id, title) =>
    if title.getLast? = some ']' then (trim id, unquote (trim title.dropLast)) else (cs, unquote cs)
  | none => (cs, unquote cs)

/-- Semicolons at the end of a line have no meaning. -/
def Line.ofText (cs : List Char) : Line :=
  let cs := trimEnd (dropEndWhile (· == ';') cs)
  if sameLetters cs "end".toList then
    .close
  else
    match afterKeyword? "subgraph".toList cs with
    | some rest => .opening (heading rest).1 (heading rest).2
    | none =>
      match Statement.read? cs with
      | some s => .statement s
      | none => .other

/-- A first appearance counts, and after it one that replaces a rectangle by another shape. -/
def annotate (a : Appearance) (node : Node) : Node :=
  if !node.annotated || (node.shape == .rectangle && a.shape != .rectangle) then
    { node with label := a.label, shape := a.shape, annotated := true }
  else
    node

def Mention.node (group : Option Nat) (m : Mention) : Node :=
  match m.appearance with
  | some a => ⟨m.id, a.label, a.shape, true, group⟩
  | none => ⟨m.id, m.id, .rectangle, false, group⟩

/-- A graph after one more mention; the first mention of an id decides on the node's place and
group. -/
def mention (group : Option Nat) (graph : FlowGraph) (m : Mention) : FlowGraph :=
  if graph.nodes.any (·.id == m.id) then
    match m.appearance with
    | some a =>
      { graph with nodes := graph.nodes.map fun n => if n.id == m.id then annotate a n else n }
    | none => graph
  else
    { graph with
      nodes := graph.nodes ++ [m.node group]
      groups := match group with
        | some g => graph.groups.modify g fun x => { x with members := x.members ++ [m.id] }
        | none => graph.groups }

def edgesFrom (source : String) : List (Link × Mention) → List Edge
  | [] => []
  | (link, m) :: hops =>
    ⟨source, m.id, link.label, link.stroke, .none, link.cap⟩ :: edgesFrom m.id hops

def Statement.edges (s : Statement) : List Edge :=
  edgesFrom s.first.id s.hops

/-- A group without an id is numbered, and one without a title is titled by its id. -/
def Group.ofHeading (number : Nat) (id title : List Char) : Group :=
  let id := if id.isEmpty then s!"subgraph{number}" else String.ofList id
  ⟨id, if title.isEmpty then id else String.ofList title, []⟩

/-- A graph with the groups that are open, the innermost first. -/
structure Draft where
  graph : FlowGraph
  inside : List Nat := []

def Draft.add (draft : Draft) : Line → Draft
  | .close => { draft with inside := draft.inside.tail }
  | .opening id title =>
    let count := draft.graph.groups.length
    { graph := { draft.graph with
        groups := draft.graph.groups ++ [Group.ofHeading (count + 1) id title] }
      inside := count :: draft.inside }
  | .statement s =>
    let graph := s.mentions.foldl (mention draft.inside.head?) draft.graph
    { draft with graph := { graph with edges := graph.edges ++ s.edges } }
  | .other => draft

end Flow

/-- The flowchart that the lines after a header draw. -/
def FlowGraph.ofLines (direction : Direction) (lines : List (List Char)) : FlowGraph :=
  ((lines.map Flow.Line.ofText).foldl Flow.Draft.add { graph := { direction } }).graph

end Chartboard
