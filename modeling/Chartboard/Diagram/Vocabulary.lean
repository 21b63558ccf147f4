namespace Chartboard

/-- The axis along which a flowchart grows. -/
inductive Direction where
  | topToBottom
  | leftToRight
deriving DecidableEq

def Direction.name : Direction → String
  | .topToBottom => "top_to_bottom"
  | .leftToRight => "left_to_right"

inductive Shape where
  | rectangle
  | rounded
  | stadium
  | decision
  | circle
  | hexagon
  | parallelogram
  | trapezoid
  | cylinder
deriving DecidableEq

/-- The name of a shape among the board's basic shapes. -/
def Shape.name : Shape → String
  | .rectangle => "rectangle"
  | .rounded => "round_rectangle"
  | .stadium => "pill"
  | .decision => "diamond"
  | .circle => "circle"
  | .hexagon => "hexagon"
  | .parallelogram => "parallelogram"
  | .trapezoid => "trapezoid"
  | .cylinder => "can"

/-- The part that a shape plays in a flowchart. -/
inductive Role where
  | terminator
  | decision
  | process
  | inputOutput
  | preparation
  | database
  | manualOperation
deriving DecidableEq

def Shape.role : Shape → Role
  | .circle | .stadium => .terminator
  | .decision => .decision
  | .rectangle | .rounded => .process
  | .parallelogram => .inputOutput
  | .hexagon => .preparation
  | .cylinder => .database
  | .trapezoid => .manualOperation

/-- The name of a role among the board's flowchart stencils. -/
def Role.stencil : Role → String
  | .terminator => "flow_chart_terminator"
  | .decision => "flow_chart_decision"
  | .process => "flow_chart_process"
  | .inputOutput => "flow_chart_input_output"
  | .preparation => "flow_chart_preparation"
  | .database => "flow_chart_database"
  | .manualOperation => "flow_chart_manual_operation"

def Shape.stencil (shape : Shape) : String :=
  shape.role.stencil

inductive Stroke where
  | solid
  | dotted
  | thick
deriving DecidableEq

def Stroke.name : Stroke → String
  | .solid => "solid"
  | .dotted => "dotted"
  | .thick => "thick"

inductive Cap where
  | none
  | arrow
  | openArrow
  | filledCircle
  | cross
deriving DecidableEq

/-- The board has no cross, so a diamond stands for it. -/
def Cap.name : Cap → String
  | .none => "none"
  | .arrow => "arrow"
  | .openArrow => "open_arrow"
  | .filledCircle => "filled_circle"
  | .cross => "diamond"

inductive Routing where
  | elbowed
  | straight
deriving DecidableEq

def Routing.name : Routing → String
  | .elbowed => "elbowed"
  | .straight => "straight"

inductive Head where
  | filled
  | hollow
  | cross
  | async
deriving DecidableEq

structure Arrow where
  dashed : Bool
  head : Head
deriving DecidableEq

def Arrow.stroke (arrow : Arrow) : Stroke :=
  if arrow.dashed then .dotted else .solid

def Head.cap : Head → Cap
  | .filled => .arrow
  | .hollow | .async => .openArrow
  | .cross => .cross

inductive Family where
  | flow
  | sequence
deriving DecidableEq

def Family.name : Family → String
  | .flow => "flow_graph"
  | .sequence => "sequence_diagram"

end Chartboard
