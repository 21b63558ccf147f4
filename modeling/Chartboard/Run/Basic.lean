import Chartboard.Plan.Basic
import Chartboard.Run.Step

namespace Chartboard
namespace Run

structure Options where
  /-- The frame around boxes that are in no frame of the plan. -/
  parent : Option String := none
  /-- How many calls may be in flight at once; zero counts as one. -/
  concurrency : Nat := 1
  /-- The moment on the clock from which no further call starts. -/
  deadline : Option Nat := none

/-- How each item of a plan ended. -/
structure Record (α : Type) where
  frames : List Outcome
  boxes : List Outcome
  lines : List Outcome
  width : α
  height : α

/-- The ids of the items that were created, by their places. -/
def ids (outcomes : List Outcome) : Array (Option String) :=
  (outcomes.map Outcome.id?).toArray

def frameRequests (plan : Plan α) : List (Option (Request α)) :=
  plan.frames.map fun item => some (.frame item)

/-- A box stands in the frame that it names if that was created. -/
def boxRequests (parent : Option String) (frames : Array (Option String)) (plan : Plan α) :
    List (Option (Request α)) :=
  plan.boxes.map fun item =>
    some (.box (item.inside (match item.parent with
      | some frame => frames[frame]?.join
      | none => parent)))

/-- A line is asked for if the boxes at both ends were created. -/
def lineRequests (boxes : Array (Option String)) (plan : Plan α) : List (Option (Request α)) :=
  plan.lines.map fun item => do
    return .line (item.between (← boxes[item.source]?.join) (← boxes[item.target]?.join))

def all (setting : Setting α σ) (requests : List (Option (Request α))) (state : State α σ) :
    List Outcome × State α σ :=
  Phase.run setting { waiting := requests.zipIdx } state

end Run

/-- Creates a plan on a board of a canvas. -/
def Plan.run (canvas : Canvas α σ) (conditions : Run.Conditions) (options : Run.Options)
    (board : String) (plan : Plan α) (start : Run.State α σ) : Run.Record α × Run.State α σ :=
  let setting : Run.Setting α σ :=
    ⟨canvas, conditions, board, max 1 options.concurrency, options.deadline⟩
  let frames := Run.all setting (Run.frameRequests plan) start
  let boxes := Run.all setting (Run.boxRequests options.parent (Run.ids frames.1) plan) frames.2
  let lines := Run.all setting (Run.lineRequests (Run.ids boxes.1) plan) boxes.2
  (⟨frames.1, boxes.1, lines.1, plan.width, plan.height⟩, lines.2)

namespace Run

structure Report (α : Type) where
  nodeIds : List String
  connectorIds : List String
  frameIds : List String
  width : α
  height : α
  /-- Whether the run stopped before an item. -/
  cancelled : Bool

def Record.report (record : Record α) : Report α where
  nodeIds := record.boxes.filterMap Outcome.id?
  connectorIds := record.lines.filterMap Outcome.id?
  frameIds := record.frames.filterMap Outcome.id?
  width := record.width
  height := record.height
  cancelled := (record.frames ++ record.boxes ++ record.lines).contains .stopped

/-- A summary that names what there is. -/
def Report.message (report : Report α) : String :=
  let counts := [(report.nodeIds.length, "nodes"), (report.connectorIds.length, "connectors"),
    (report.frameIds.length, "frames")].filter (·.1 ≠ 0)
  if counts.isEmpty then
    "No diagram items were created"
  else
    "Created diagram with " ++ ", ".intercalate (counts.map fun (n, noun) => s!"{n} {noun}")

end Run
end Chartboard
