import Chartboard.Canvas.Board
import Chartboard.Command.Arguments
import Chartboard.Command.Report

namespace Chartboard

def Drawing.overrides (drawing : Drawing) : Overrides Float where
  startX := drawing.startX
  startY := drawing.startY
  nodeWidth := drawing.nodeWidth

def Drawing.request (drawing : Drawing) (board diagram : String) (parent : Option String) :
    DrawingRequest Float where
  board
  diagram
  startX := drawing.startX
  startY := drawing.startY
  nodeWidth := drawing.nodeWidth
  parent
  stencils := drawing.stencils

namespace Command

inductive Failure where
  | unreadable
  | settings (why : SettingsError)
  | refused (why : Refusal)
  | drawing (why : DrawingError)

namespace Failure

def kind : Failure → String
  | unreadable => "Read"
  | settings _ => "Config"
  | refused _ => "Parse"
  | drawing _ => "Diagram"

def refusal? : Failure → Option Refusal
  | refused why => some why
  | drawing (.refused why) => some why
  | _ => none

end Failure

structure Ending where
  status : Nat
  output : String := ""
  errors : List String := []

/-- A failure is reported after a hint on how to mend the text. -/
def Ending.ofFailure (why : Failure) : Ending where
  status := 1
  errors := why.refusal?.toList.map (fun r => s!"hint: {r.suggestion}") ++ [s!"Error: {why.kind}"]

def Ending.ofJson (json : Json) (errors : List String) : Ending where
  status := 0
  output := json.render ++ "\n"
  errors

def boardVariable : String :=
  "BOARDGRAM_BOARD_ID"

/-- The board that is drawn on: that of the option, or else that of the variable. -/
def boardName (lookup : String → Option String) (option : Option String) : String :=
  (option <|> lookup boardVariable).getD "local"

/-- Carries a command out on a text. Diagrams are drawn on a board in memory. -/
def run (lookup : String → Option String) (newId : Nat → String) (text : String) :
    Command → Except Failure Ending
  | parse _ => do
    let diagram ← (Diagram.read text.toList).mapError .refused
    return .ofJson diagram.summary []
  | plan _ drawing => do
    let settings ← (Settings.ofVariables lookup).mapError .settings
    let overrides := settings.overrides.under drawing.overrides
    let plan ← (Plan.ofText drawing.stencils overrides text.toList).mapError .refused
    return .ofJson plan.json []
  | generate _ drawing board parent => do
    let settings ← (Settings.ofVariables lookup).mapError .settings
    let request := drawing.request (boardName lookup board) text parent
    let start : Run.State Float (Board Float) := { canvas := {}, cancelled := false }
    let record ← (request.run (Board.canvas newId) {} settings start).1.mapError .drawing
    return .ofJson record.report.json [record.report.message]

/-- The ending for the arguments of the program; arguments that are no command end it with
status two. -/
def execute (lookup : String → Option String) (newId : Nat → String)
    (read : String → Option String) (words : List String) : Ending :=
  match ofArguments? words with
  | none => { status := 2, errors := ["error: invalid arguments"] }
  | some command =>
    match read command.input with
    | none => .ofFailure .unreadable
    | some text =>
      match command.run lookup newId text with
      | .ok ending => ending
      | .error why => .ofFailure why

end Command
end Chartboard
