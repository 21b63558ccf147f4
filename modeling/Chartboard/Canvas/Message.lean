import Chartboard.Decimal.Printer
import Chartboard.Plan.Item

namespace Chartboard

/-- What a call asks for. Items refer to others by their ids. -/
inductive Request (α : Type) where
  | frame (item : FrameItem α)
  | box (item : BoxItem α String)
  | line (item : LineItem String)
deriving DecidableEq

/-- A call for the item at one place of a plan; the calls of a run are numbered as they start. -/
structure Call (α : Type) where
  number : Nat
  place : Nat
  board : String
  request : Request α
deriving DecidableEq

/-- What is wrong with an item. -/
inductive Rejection (α : Type) where
  | size (width height : α)
  | parent (id : String)
  | endpoint (id : String)
  | other (reason : String)
deriving DecidableEq

inductive CanvasError (α : Type) where
  | boardNotFound (board : String)
  | rejected (why : Rejection α)
  | unavailable (reason : String)
deriving DecidableEq

namespace CanvasError

def code : CanvasError α → String
  | boardNotFound _ => "E_BOARD_NOT_FOUND"
  | rejected _ => "E_CANVAS_REJECTED"
  | unavailable _ => "E_CANVAS_UNAVAILABLE"

/-- Whether the same call may succeed later. -/
def retryable : CanvasError α → Bool
  | unavailable _ => true
  | _ => false

end CanvasError

/-- The id of the new item, or why there is none. -/
abbrev Answer (α : Type) := Except (CanvasError α) String

/-- A service by its state and its answers. -/
structure Canvas (α σ : Type) where
  answer : σ → Call α → Answer α × σ

/-- Sizes are written out in full, and whole ones without a point. -/
def sizeStyle : Decimal.Style := ⟨.up, fun _ => true, "", ""⟩

def sizeText (x : Float) : String :=
  if x.isNaN then "NaN"
  else if x.isInf then (if x < 0 then "-inf" else "inf")
  else sizeStyle.render x

def Rejection.message : Rejection Float → String
  | size width height => s!"invalid size {sizeText width}x{sizeText height}"
  | parent id => s!"unknown parent {id}"
  | endpoint id => s!"unknown endpoint {id}"
  | other reason => reason

def CanvasError.message : CanvasError Float → String
  | boardNotFound board => s!"board not found: {board}"
  | rejected why => s!"canvas rejected item: {why.message}"
  | unavailable reason => s!"canvas unavailable: {reason}"

end Chartboard
