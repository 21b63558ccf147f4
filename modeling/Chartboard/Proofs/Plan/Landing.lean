import Chartboard.Proofs.Canvas.Board
import Chartboard.Proofs.Plan.Sound

namespace Chartboard
open Chartboard.Run

variable {α : Type}

namespace Plan

def count (plan : Plan α) : Kind → Nat
  | .frame => plan.frames.length
  | .box => plan.boxes.length
  | .line => plan.lines.length

/-- How many items of a plan are created before those of a kind. -/
def offset (plan : Plan α) : Kind → Nat
  | .frame => 0
  | .box => plan.count .frame
  | .line => plan.count .frame + plan.count .box

/-- The id of the item of a kind at a place. -/
def id (newId : Nat → String) (plan : Plan α) (kind : Kind) (place : Nat) : String :=
  newId (plan.offset kind + place)

/-- What is asked for so that items refer to others by their ids. -/
def requests (newId : Nat → String) (plan : Plan α) : Kind → List (Request α)
  | .frame => plan.frames.map .frame
  | .box => plan.boxes.map fun item => .box (item.inside (item.parent.map (plan.id newId .frame)))
  | .line => plan.lines.map fun item =>
    .line (item.between (plan.id newId .box item.source) (plan.id newId .box item.target))

/-- The items of a kind as they stand on a board. -/
def landed (newId : Nat → String) (name : String) (plan : Plan α) (kind : Kind) :
    List (BoardItem α) :=
  (plan.requests newId kind).zipIdx.map fun (request, place) =>
    ⟨plan.id newId kind place, name, request⟩

def earlier (newId : Nat → String) (plan : Plan α) : Kind → List (Request α)
  | .frame => []
  | .box => plan.requests newId .frame
  | .line => plan.requests newId .frame ++ plan.requests newId .box

/-- The board on which the items of a kind are created. -/
def board (newId : Nat → String) (name : String) (plan : Plan α) (kind : Kind) : Board α :=
  Board.fill newId name (plan.earlier newId kind) {}

variable {newId : Nat → String} {name : String} {plan : Plan α}

@[simp] theorem length_requests (kind : Kind) :
    (plan.requests newId kind).length = plan.count kind := by
  cases kind <;> exact List.length_map _

theorem length_earlier (kind : Kind) : (plan.earlier newId kind).length = plan.offset kind := by
  cases kind <;> simp [earlier, offset]

theorem requests_frame {frame : Nat} (h : frame < plan.frames.length) :
    (plan.requests newId .frame)[frame]? = some (.frame plan.frames[frame]) := by
  rw [requests, List.getElem?_map, List.getElem?_eq_getElem h, Option.map_some]

theorem requests_box {box : Nat} (h : box < plan.boxes.length) :
    (plan.requests newId .box)[box]? = some (.box (plan.boxes[box].inside
      (plan.boxes[box].parent.map (plan.id newId .frame)))) := by
  rw [requests, List.getElem?_map, List.getElem?_eq_getElem h, Option.map_some]

theorem size_board (kind : Kind) : (plan.board newId name kind).items.size = plan.offset kind := by
  rw [board, Board.size_fill, length_earlier]
  exact Nat.zero_add _

theorem fill_board_frame : (plan.board newId name .frame).fill newId name
    (plan.requests newId .frame) = plan.board newId name .box := rfl

theorem fill_board_box : (plan.board newId name .box).fill newId name
    (plan.requests newId .box) = plan.board newId name .line :=
  (Board.fill_append ..).symm

theorem items_fill_board (kind : Kind) :
    ((plan.board newId name kind).fill newId name (plan.requests newId kind)).items.toList =
      (plan.board newId name kind).items.toList ++ plan.landed newId name kind := by
  rw [Board.items_fill, size_board, landed, List.zipIdx_eq_map_add, List.map_map]
  rfl

/-- All that lands stands in the order of the plan. -/
theorem items_fill_all :
    ((plan.board newId name .line).fill newId name (plan.requests newId .line)).items.toList =
      plan.landed newId name .frame ++ plan.landed newId name .box ++
        plan.landed newId name .line := by
  rw [items_fill_board, ← fill_board_box, items_fill_board, ← fill_board_frame, items_fill_board]
  rfl

theorem indexed_board (kind : Kind) : (plan.board newId name kind).Indexed :=
  Board.Indexed.empty.fill _

theorem mem_landed {kind : Kind} {place : Nat} {request : Request α}
    (h : (plan.requests newId kind)[place]? = some request) :
    ⟨plan.id newId kind place, name, request⟩ ∈ plan.landed newId name kind := by
  refine List.mem_map.2 ⟨(request, place), ?_, rfl⟩
  rw [List.mem_zipIdx_iff_getElem?]
  exact h

/-- What was asked for before stands on the board under the id of its place. -/
theorem mem_ids_board {kind : Kind} {place : Nat} {request : Request α}
    (h : (plan.earlier newId kind)[place]? = some request) :
    newId place ∈ (plan.board newId name kind).ids request.kind := by
  have hm : newId (({} : Board α).items.size + place) ∈
      (plan.board newId name kind).ids request.kind := Board.mem_ids_fill {} h
  rwa [show ({} : Board α).items.size = 0 from rfl, Nat.zero_add] at hm

theorem frame_mem {frame : Nat} (h : frame < plan.frames.length) :
    plan.id newId .frame frame ∈ (plan.board newId name .box).frames := by
  have hr : (plan.earlier newId .box)[plan.offset .frame + frame]? =
      some (.frame plan.frames[frame]) := by
    rw [earlier, offset, Nat.zero_add]
    exact requests_frame h
  rw [(indexed_board .box).frames]
  exact mem_ids_board hr

theorem box_mem {box : Nat} (h : box < plan.boxes.length) :
    plan.id newId .box box ∈ (plan.board newId name .line).boxes := by
  have hf : (plan.requests newId .frame).length = plan.offset .box := length_requests .frame
  have hr : (plan.earlier newId .line)[plan.offset .box + box]? =
      some (.box (plan.boxes[box].inside (plan.boxes[box].parent.map (plan.id newId .frame)))) := by
    rw [earlier, List.getElem?_append_right (hf ▸ Nat.le_add_right ..), hf,
      Nat.add_sub_cancel_left]
    exact requests_box h
  rw [(indexed_board .line).boxes]
  exact mem_ids_board hr

variable [Coordinate α]

/-- Every stage asks for what its board accepts. -/
theorem Sound.accepted (h : plan.Sound) (kind : Kind) :
    ∀ request ∈ plan.requests newId kind,
      (plan.board newId name kind).rejection? request = none := by
  intro request hm
  cases kind with
  | frame =>
    obtain ⟨item, hi, rfl⟩ := List.mem_map.1 hm
    exact Board.rejection?_frame.2 (h.frames item hi)
  | box =>
    obtain ⟨item, hi, rfl⟩ := List.mem_map.1 hm
    refine Board.rejection?_box.2 ⟨h.boxes item hi, ?_⟩
    intro id hid
    obtain ⟨frame, hf, rfl⟩ := Option.map_eq_some_iff.1 hid
    exact frame_mem (h.parents item hi frame hf)
  | line =>
    obtain ⟨item, hi, rfl⟩ := List.mem_map.1 hm
    obtain ⟨hs, ht⟩ := h.ends item hi
    exact Board.rejection?_line.2 ⟨box_mem hs, box_mem ht⟩

end Plan

end Chartboard
