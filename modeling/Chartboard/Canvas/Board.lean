import Chartboard.Canvas.Message
import Chartboard.Layout.Rect
import Chartboard.Text.Blank
import Std.Data.HashSet

namespace Chartboard

structure BoardItem (α : Type) where
  id : String
  board : String
  request : Request α
deriving DecidableEq

/-- Items in the order of their creation, and which of their ids belong to frames and to boxes. -/
structure Board (α : Type) where
  items : Array (BoardItem α) := #[]
  frames : Std.HashSet String := ∅
  boxes : Std.HashSet String := ∅

namespace Board
variable {α : Type}

def isUsableSize [Coordinate α] (width height : α) : Bool :=
  isFinite width && isFinite height && isPositive width && isPositive height

/-- What is wrong with a request on this board: a size, a parent that is no frame, or an end that
is no box. -/
def rejection? [Coordinate α] (board : Board α) : Request α → Option (Rejection α)
  | .frame item =>
    if isUsableSize item.width item.height then none else some (.size item.width item.height)
  | .box item =>
    if isUsableSize item.width item.height then
      (item.parent.filter fun id => !board.frames.contains id).map .parent
    else
      some (.size item.width item.height)
  | .line item => ([item.source, item.target].find? fun id => !board.boxes.contains id).map .endpoint

def insert (board : Board α) (item : BoardItem α) : Board α where
  items := board.items.push item
  frames := match item.request with
    | .frame _ => board.frames.insert item.id
    | _ => board.frames
  boxes := match item.request with
    | .box _ => board.boxes.insert item.id
    | _ => board.boxes

/-- Creates an item under an id of its own, or leaves the board as it is. -/
def create [Coordinate α] (newId : Nat → String) (board : Board α) (name : String)
    (request : Request α) : Answer α × Board α :=
  if name.toList.all Text.isBlank then
    (.error (.boardNotFound name), board)
  else
    match board.rejection? request with
    | some why => (.error (.rejected why), board)
    | none =>
      let id := newId board.items.size
      (.ok id, board.insert ⟨id, name, request⟩)

/-- The board as a service; the ids come from a generator. -/
def canvas [Coordinate α] (newId : Nat → String) : Canvas α (Board α) where
  answer board call := board.create newId call.board call.request

end Board
end Chartboard
