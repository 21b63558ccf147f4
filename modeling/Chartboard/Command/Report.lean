import Chartboard.Json
import Chartboard.Run.Generate

namespace Chartboard

def Diagram.summary (diagram : Diagram) : Json :=
  .record [
    ("direction", .text diagram.direction.name),
    ("edges", .nat diagram.edgeCount),
    ("kind", .text diagram.family.name),
    ("nodes", .nat diagram.nodeCount)]

def FrameItem.json (item : FrameItem Float) : Json :=
  .record [
    ("title", .optional .text item.title),
    ("x", .float item.x),
    ("y", .float item.y),
    ("width", .float item.width),
    ("height", .float item.height),
    ("color", .optional .text item.color)]

/-- The colour of the outline is left out where there is none. -/
def BoxItem.json (item : BoxItem Float Nat) : Json :=
  .record ([
    ("shape", .text item.shape.name),
    ("stencil", .bool item.stencil),
    ("label", .text item.label),
    ("x", .float item.x),
    ("y", .float item.y),
    ("width", .float item.width),
    ("height", .float item.height),
    ("color", .optional .text item.color)] ++
    item.borderColor.toList.map (fun color => ("border_color", .text color)) ++
    [("container", .optional .nat item.parent)])

def LineItem.json (item : LineItem Nat) : Json :=
  .record [
    ("from", .nat item.source),
    ("to", .nat item.target),
    ("label", .optional .text item.label),
    ("style", .text item.stroke.name),
    ("routing", .text item.routing.name),
    ("start_cap", .text item.startCap.name),
    ("end_cap", .text item.endCap.name)]

def Plan.json (plan : Plan Float) : Json :=
  .record [
    ("containers", .list (plan.frames.map (·.json))),
    ("boxes", .list (plan.boxes.map (·.json))),
    ("lines", .list (plan.lines.map (·.json))),
    ("width", .float plan.width),
    ("height", .float plan.height)]

def Run.Report.json (report : Run.Report Float) : Json :=
  .record [
    ("nodes_created", .nat report.nodeIds.length),
    ("connectors_created", .nat report.connectorIds.length),
    ("frames_created", .nat report.frameIds.length),
    ("node_ids", .list (report.nodeIds.map .text)),
    ("connector_ids", .list (report.connectorIds.map .text)),
    ("frame_ids", .list (report.frameIds.map .text)),
    ("diagram_width", .float report.width),
    ("diagram_height", .float report.height),
    ("message", .text report.message),
    ("cancelled", .bool report.cancelled)]

end Chartboard
