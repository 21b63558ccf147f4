import Chartboard.Json
import Chartboard.Run.Basic
import Chartboard.Settings

namespace Chartboard

structure DrawingRequest (α : Type) where
  board : String
  diagram : String
  startX : Option α := none
  startY : Option α := none
  nodeWidth : Option α := none
  /-- The frame around boxes that are in no group. -/
  parent : Option String := none
  stencils : Bool := false

namespace DrawingRequest

def overrides (request : DrawingRequest α) : Overrides α where
  startX := request.startX
  startY := request.startY
  nodeWidth := request.nodeWidth

def text? : Json → Option String
  | .text s => some s
  | _ => none

def float? : Json → Option Float
  | .float x => some x
  | _ => none

def bool? : Json → Option Bool
  | .bool b => some b
  | _ => none

def orNull? (read : Json → Option α) : Json → Option (Option α)
  | .null => some none
  | v => (read v).map some

/-- A request from its fields. Only whether to draw stencils can be left out and not be null. -/
def ofFields? (field : String → Option Json) : Option (DrawingRequest Float) := do
  let optional := fun name => (field name).getD .null
  return {
    board := ← (field "board_id").bind text?
    diagram := ← (field "diagram").bind text?
    startX := ← orNull? float? (optional "start_x")
    startY := ← orNull? float? (optional "start_y")
    nodeWidth := ← orNull? float? (optional "node_width")
    parent := ← orNull? text? (optional "parent_id")
    stencils := ← bool? ((field "use_stencils").getD (.bool false)) }

def fieldNames : List String :=
  ["board_id", "diagram", "start_x", "start_y", "node_width", "parent_id", "use_stencils"]

/-- A request is a record, or the list of its fields in which at most the last one is left out. -/
def ofJson? : Json → Option (DrawingRequest Float)
  | .record fields => ofFields? fun name => fields.lookup name
  | .list values =>
    if values.length = 6 ∨ values.length = 7 then
      ofFields? fun name => (fieldNames.zip values).lookup name
    else
      none
  | _ => none

end DrawingRequest

inductive DrawingError where
  | missingBoard
  | refused (why : Refusal)
deriving DecidableEq

namespace DrawingError

def code : DrawingError → String
  | missingBoard => "E_MISSING_BOARD"
  | refused why => why.code

def message : DrawingError → String
  | missingBoard => "board_id is required"
  | refused why => s!"failed to parse diagram: {why.message}"

end DrawingError

/-- The plan of a request. Its own measures stand above those of the deployment. -/
def DrawingRequest.plan [Coordinate α] (settings : Settings α) (request : DrawingRequest α) :
    Except DrawingError (Plan α) :=
  if request.board.toList.all Text.isBlank then
    .error .missingBoard
  else
    (Plan.ofText request.stencils (settings.overrides.under request.overrides)
      request.diagram.toList).mapError .refused

/-- Draws a diagram, or calls for nothing. No call starts once the time of the deployment is over. -/
def DrawingRequest.run [Coordinate α] (canvas : Canvas α σ) (conditions : Run.Conditions)
    (settings : Settings α) (start : Run.State α σ) (request : DrawingRequest α) :
    Except DrawingError (Run.Record α) × Run.State α σ :=
  match request.plan settings with
  | .error why => (.error why, start)
  | .ok plan =>
    let options : Run.Options := {
      parent := request.parent
      concurrency := settings.concurrency
      deadline := settings.timeout.map (conditions.clock start.now + ·) }
    let ended := plan.run canvas conditions options request.board start
    (.ok ended.1, ended.2)

end Chartboard
