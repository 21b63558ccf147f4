import Chartboard.Diagram.Header
import Chartboard.Flow.Graph
import Chartboard.Sequence.Lines
import Chartboard.Text.Search

namespace Chartboard

/-- The longest text in bytes, the most lines and the longest line in bytes that are read. -/
structure Limits where
  bytes : Nat
  lines : Nat
  lineBytes : Nat

def limits : Limits := ⟨50 * 1024, 500, 2000⟩

inductive Refusal where
  | empty
  | badHeader (found : String) (hint : Option String)
  | tooLarge (size : Nat)
  | tooManyLines (count : Nat)
  | lineTooLong (line length : Nat)
deriving DecidableEq

namespace Refusal

def code : Refusal → String
  | .empty => "E_EMPTY_INPUT"
  | .badHeader .. => "E_INVALID_HEADER"
  | .tooLarge _ => "E_INPUT_TOO_LARGE"
  | .tooManyLines _ => "E_TOO_MANY_LINES"
  | .lineTooLong .. => "E_LINE_TOO_LONG"

def message : Refusal → String
  | .empty => "diagram input is empty"
  | .badHeader found _ => "diagram must start with a valid header, found \x60" ++ found ++ "\x60"
  | .tooLarge size => s!"diagram input is {size} bytes, exceeding the limit of {limits.bytes}"
  | .tooManyLines count => s!"diagram has {count} lines, exceeding the limit of {limits.lines}"
  | .lineTooLong line length =>
    s!"line {line} has {length} characters, exceeding the limit of {limits.lineBytes}"

def suggestion : Refusal → String
  | .empty => "Provide diagram code starting with 'flowchart TB' or 'sequenceDiagram'"
  | .badHeader _ hint =>
    "Use 'flowchart TB', 'flowchart LR', 'graph TD', or 'sequenceDiagram'" ++
      (hint.map (". " ++ ·)).getD ""
  | .tooLarge _ => "Reduce diagram size or split it into several smaller diagrams"
  | .tooManyLines _ => "Reduce the number of lines or split it into several diagrams"
  | .lineTooLong .. => "Split long labels or node names into shorter segments"

end Refusal

open Text

/-- The lines that say something, trimmed. -/
def meaningfulLines (lines : List (List Char)) : List (List Char) :=
  (lines.map trim).filter fun line => !line.isEmpty && !startsWith ['%', '%'] line

/-- The first line above the limit, counted from one, with its length. -/
def longLine? (lines : List (List Char)) : Option (Nat × Nat) :=
  ((lines.map byteSize).zipIdx 1).findSome? fun (length, number) =>
    if limits.lineBytes < length then some (number, length) else none

def Diagram.ofLines (header : Header) (lines : List (List Char)) : Diagram :=
  match header with
  | .flow direction => .flow (FlowGraph.ofLines direction lines)
  | .sequence => .sequence (SequenceDiagram.ofLines lines)

/-- Reads a text whose size is within the limit. -/
def Diagram.ofText (text : List Char) : Except Refusal Diagram :=
  let text := trim text
  let rows := lines text
  if text.isEmpty then
    .error .empty
  else if limits.lines < rows.length then
    .error (.tooManyLines rows.length)
  else
    match longLine? rows with
    | some (number, length) => .error (.lineTooLong number length)
    | none =>
      let said := meaningfulLines rows
      let first := said.head?.getD []
      match Header.read? first with
      | some header => .ok (.ofLines header said.tail)
      | none => .error (.badHeader (Header.preview first) (Header.hint? text))

/-- Only the header is strict; a line that says nothing is passed over. -/
def Diagram.read (text : List Char) : Except Refusal Diagram :=
  let size := byteSize text
  if limits.bytes < size then .error (.tooLarge size) else Diagram.ofText text

end Chartboard
