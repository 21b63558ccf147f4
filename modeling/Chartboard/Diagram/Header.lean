import Chartboard.Diagram.Vocabulary
import Chartboard.Text.Search

namespace Chartboard
open Text

/-- A flowchart that grows upwards or to the left is drawn as its opposite. -/
def Direction.ofToken? (token : List Char) : Option Direction :=
  if ["TB", "TD", "BT"].any fun t => sameLetters token t.toList then
    some .topToBottom
  else if ["LR", "RL"].any fun t => sameLetters token t.toList then
    some .leftToRight
  else
    none

inductive Header where
  | flow (direction : Direction)
  | sequence
deriving DecidableEq

namespace Header

def read? (line : List Char) : Option Header :=
  let line := trim (dropEndWhile (· == ';') line)
  if sameLetters line "sequenceDiagram".toList then
    some .sequence
  else
    match words line with
    | keyword :: rest =>
      if sameLetters keyword "flowchart".toList || sameLetters keyword "graph".toList then
        match rest with
        | [] => some (.flow .topToBottom)
        | [token] => (Direction.ofToken? token).map .flow
        | _ => none
      else
        none
    | [] => none

/-- What the header was probably meant to be, from words and arrows anywhere in the text. -/
def hint? (text : List Char) : Option String :=
  let text := text.map Char.toLower
  let has := fun mark : String => contains mark.toList text
  if has "participant" || has "->>" then
    some "Sequence diagrams must start with 'sequenceDiagram'"
  else if has "-->" || has "subgraph" then
    some "Flowcharts must start with 'flowchart TB' or 'graph TD'"
  else
    none

/-- A line in at most fifty characters. -/
def preview (line : List Char) : String :=
  if line.length ≤ 50 then String.ofList line else String.ofList (line.take 47) ++ "..."

end Header
end Chartboard
