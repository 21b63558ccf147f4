import Chartboard.Sequence.Message
import Chartboard.Text.Search

namespace Chartboard.Sequence
open Text

inductive Line where
  | declaration (participant : Participant)
  | message (message : Message)
  | other

/-- The words that open a block, a note or a setting. -/
def blockWords : List (List Char) :=
  ["note", "activate", "deactivate", "loop", "alt", "else", "opt", "par", "and", "critical",
   "option", "break", "rect", "end", "autonumber", "title"].map String.toList

/-- Whether a line is a block or a note. It is not where such a word is the whole sender of a
message. -/
def isBlock (line : List Char) : Bool :=
  (words line).head?.any (fun word => blockWords.any (sameLetters word)) &&
    !(findArrow? (atColon line).1).any fun (before, _) => !(trim before).any isBlank

/-- An id with its alias, or an id that is its own label. An alias may stand in quotes. -/
def declared (actor : Bool) (cs : List Char) : Participant :=
  match cut " as ".toList cs with
  | some (id, label) =>
    let quote := fun c => c == '"'
    ⟨String.ofList (trim id), String.ofList (dropEndWhile quote ((trim label).dropWhile quote)), actor⟩
  | none => ⟨String.ofList (trim cs), String.ofList (trim cs), actor⟩

def Line.ofText (cs : List Char) : Line :=
  match afterKeyword? "participant".toList cs with
  | some rest => .declaration (declared false rest)
  | none =>
    match afterKeyword? "actor".toList cs with
    | some rest => .declaration (declared true rest)
    | none =>
      if isBlock cs then
        .other
      else
        match message? cs with
        | some m => .message m
        | none => .other

/-- The first appearance of an id decides; no participant is without an id. -/
def register (diagram : SequenceDiagram) (p : Participant) : SequenceDiagram :=
  if p.id.isEmpty || diagram.participants.any (·.id == p.id) then
    diagram
  else
    { diagram with participants := diagram.participants ++ [p] }

/-- A participant that is known from a message only. -/
def undeclared (id : String) : Participant :=
  ⟨id, id, false⟩

def add (diagram : SequenceDiagram) : Line → SequenceDiagram
  | .declaration p => register diagram p
  | .message m =>
    let diagram := register (register diagram (undeclared m.sender)) (undeclared m.receiver)
    { diagram with messages := diagram.messages ++ [m] }
  | .other => diagram

end Sequence

/-- The sequence diagram that the lines after a header draw. -/
def SequenceDiagram.ofLines (lines : List (List Char)) : SequenceDiagram :=
  (lines.map Sequence.Line.ofText).foldl Sequence.add {}

def Participant.declaration (p : Participant) : List Char :=
  (if p.actor then "actor ".toList else "participant ".toList) ++ p.id.toList ++ " as ".toList ++
    '"' :: p.label.toList ++ ['"']

def Activation.sign : Activation → Char
  | .activate => '+'
  | .deactivate => '-'

def Message.line (m : Message) : List Char :=
  m.sender.toList ++ m.arrow.spelling ++ (m.activation.map Activation.sign).toList ++
    m.receiver.toList ++ ':' :: ' ' :: m.text.toList

namespace SequenceDiagram

def renderedLines (diagram : SequenceDiagram) : List (List Char) :=
  "sequenceDiagram".toList :: diagram.participants.map Participant.declaration ++
    diagram.messages.map Message.line

def render (diagram : SequenceDiagram) : List Char :=
  ['\n'].intercalate diagram.renderedLines

end SequenceDiagram
end Chartboard
