import Chartboard.Diagram.Vocabulary

namespace Chartboard

structure FrameItem (α : Type) where
  title : Option String
  x : α
  y : α
  width : α
  height : α
  color : Option String
deriving DecidableEq

/-- A box around its centre. It refers to others by `ρ`: by their places in a plan, or by their ids on
a board. -/
structure BoxItem (α ρ : Type) where
  shape : Shape
  /-- Whether the shape is drawn as a flowchart stencil. -/
  stencil : Bool
  label : String
  x : α
  y : α
  width : α
  height : α
  color : Option String
  borderColor : Option String
  parent : Option ρ
deriving DecidableEq

structure LineItem (ρ : Type) where
  source : ρ
  target : ρ
  label : Option String
  stroke : Stroke
  routing : Routing
  startCap : Cap
  endCap : Cap
deriving DecidableEq

/-- The name by which the board knows the shape of a box. -/
def BoxItem.shapeName (box : BoxItem α ρ) : String :=
  if box.stencil then box.shape.stencil else box.shape.name

def BoxItem.inside (box : BoxItem α ρ) (parent : Option σ) : BoxItem α σ :=
  { box with parent }

def LineItem.between (line : LineItem ρ) (source target : σ) : LineItem σ :=
  { line with source, target }

def Shape.color : Shape → String
  | .decision => "#FFE066"
  | .circle => "#B8E986"
  | .stadium => "#B3E5FC"
  | .parallelogram => "#E1BEE7"
  | .hexagon => "#FFCCBC"
  | .cylinder => "#B2EBF2"
  | .rectangle | .rounded | .trapezoid => "#E3F2FD"

def Role.color : Role → String
  | .terminator => "#C8E6C9"
  | .decision => "#FFF9C4"
  | .process => "#BBDEFB"
  | .inputOutput => "#E1BEE7"
  | .preparation => "#FFE0B2"
  | .database => "#B3E5FC"
  | .manualOperation => "#FFCCBC"

/-- The outline of a flowchart stencil, darker than its fill. -/
def Role.borderColor : Role → String
  | .terminator => "#4CAF50"
  | .decision => "#FFC107"
  | .process => "#2196F3"
  | .inputOutput => "#9C27B0"
  | .preparation => "#FF9800"
  | .database => "#00BCD4"
  | .manualOperation => "#FF5722"

namespace Palette

def group : String := "#F5F5F5"

def lifeline : String := "#F1F8FE"

def participant : String := "#E3F2FD"

def actor : String := "#FFF9C4"

def anchor : String := "#90CAF9"

end Palette
end Chartboard
