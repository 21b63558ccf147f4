import Chartboard.Diagram.Basic
import Chartboard.Text.Blank
import Chartboard.Text.Search

namespace Chartboard

/-- The spelling of an arrow: one or two dashes and a head. -/
def Arrow.spelling : Arrow → List Char
  | ⟨true, .filled⟩ => ['-', '-', '>', '>']
  | ⟨true, .async⟩ => ['-', '-', ')']
  | ⟨true, .cross⟩ => ['-', '-', 'x']
  | ⟨true, .hollow⟩ => ['-', '-', '>']
  | ⟨false, .filled⟩ => ['-', '>', '>']
  | ⟨false, .async⟩ => ['-', ')']
  | ⟨false, .cross⟩ => ['-', 'x']
  | ⟨false, .hollow⟩ => ['-', '>']

/-- A spelling that begins with another one stands before it. -/
def Arrow.all : List Arrow :=
  [⟨true, .filled⟩, ⟨true, .async⟩, ⟨true, .cross⟩, ⟨true, .hollow⟩,
   ⟨false, .filled⟩, ⟨false, .async⟩, ⟨false, .cross⟩, ⟨false, .hollow⟩]

namespace Sequence
open Text

def arrowAt? (cs : List Char) : Option (Arrow × List Char) :=
  Arrow.all.findSome? fun arrow => (after? arrow.spelling cs).map (arrow, ·)

/-- The first arrow in a text, with the text before it and the text after it. -/
def findArrow? : List Char → Option (List Char × Arrow × List Char)
  | [] => none
  | c :: cs =>
    match arrowAt? (c :: cs) with
    | some (arrow, rest) => some ([], arrow, rest)
    | none => (findArrow? cs).map fun (before, found) => (c :: before, found)

/-- A line before and after its first colon. -/
def atColon (line : List Char) : List Char × List Char :=
  (cut [':'] line).getD (line, [])

/-- A receiver with the sign that changes its activation. -/
def receiver (cs : List Char) : Option Activation × List Char :=
  match trim cs with
  | '+' :: r => (some .activate, trimStart r)
  | '-' :: r => (some .deactivate, trimStart r)
  | r => (none, r)

/-- A sender, an arrow and a receiver before the first colon, and the text after it. -/
def message? (line : List Char) : Option Message := do
  let (before, arrow, after) ← findArrow? (atColon line).1
  let sender := trim before
  let (activation, receiver) := receiver after
  if sender.isEmpty || receiver.isEmpty then
    none
  else
    some {
      sender := String.ofList sender
      receiver := String.ofList receiver
      text := String.ofList (trim (atColon line).2)
      arrow, activation }

end Sequence
end Chartboard
