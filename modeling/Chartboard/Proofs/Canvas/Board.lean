import Chartboard.Canvas.Board
import Chartboard.Proofs.Run.Serving
import Mathlib.Data.List.Nodup

namespace Chartboard.Board
open Run

variable {α : Type}

def ids (board : Board α) (kind : Kind) : List String :=
  (board.items.toList.filter (·.request.kind = kind)).map (·.id)

/-- The ids that a board keeps are those of its items. -/
structure Indexed (board : Board α) : Prop where
  frames : ∀ id, id ∈ board.frames ↔ id ∈ board.ids .frame
  boxes : ∀ id, id ∈ board.boxes ↔ id ∈ board.ids .box

theorem Indexed.empty : ({} : Board α).Indexed where
  frames := by simp [ids]
  boxes := by simp [ids]

theorem ids_insert (board : Board α) (item : BoardItem α) (kind : Kind) :
    (board.insert item).ids kind =
      board.ids kind ++ if item.request.kind = kind then [item.id] else [] := by
  simp only [ids, insert, Array.toList_push, List.filter_append, List.map_append]
  by_cases h : item.request.kind = kind
  · simp [h]
  · simp [h]

theorem mem_frames_insert {board : Board α} {item : BoardItem α} {id : String} :
    id ∈ (board.insert item).frames ↔
      id ∈ board.frames ∨ item.request.kind = .frame ∧ item.id = id := by
  obtain ⟨other, name, request⟩ := item
  cases request with
  | frame => simp [insert, Request.kind, or_comm]
  | box => simp [insert, Request.kind]
  | line => simp [insert, Request.kind]

theorem mem_boxes_insert {board : Board α} {item : BoardItem α} {id : String} :
    id ∈ (board.insert item).boxes ↔
      id ∈ board.boxes ∨ item.request.kind = .box ∧ item.id = id := by
  obtain ⟨other, name, request⟩ := item
  cases request with
  | frame => simp [insert, Request.kind]
  | box => simp [insert, Request.kind, or_comm]
  | line => simp [insert, Request.kind]

theorem mem_ids_insert {board : Board α} {item : BoardItem α} {kind : Kind} {id : String} :
    id ∈ (board.insert item).ids kind ↔
      id ∈ board.ids kind ∨ item.request.kind = kind ∧ item.id = id := by
  rw [ids_insert, List.mem_append]
  split <;> simp_all [eq_comm]

theorem Indexed.insert {board : Board α} (h : board.Indexed) (item : BoardItem α) :
    (board.insert item).Indexed where
  frames id := by rw [mem_frames_insert, mem_ids_insert, h.frames]
  boxes id := by rw [mem_boxes_insert, mem_ids_insert, h.boxes]

/-- A board after more items on it, under ids of their own. -/
def fill (newId : Nat → String) (name : String) : List (Request α) → Board α → Board α
  | [], board => board
  | request :: requests, board =>
    fill newId name requests (board.insert ⟨newId board.items.size, name, request⟩)

variable {newId : Nat → String} {name : String}

theorem fill_append (requests more : List (Request α)) (board : Board α) :
    fill newId name (requests ++ more) board =
      fill newId name more (fill newId name requests board) := by
  induction requests generalizing board with
  | nil => rfl
  | cons request requests ih => exact ih _

theorem items_fill (requests : List (Request α)) (board : Board α) :
    (fill newId name requests board).items.toList = board.items.toList ++
      (requests.zipIdx board.items.size).map fun (request, n) => ⟨newId n, name, request⟩ := by
  induction requests generalizing board with
  | nil => simp [fill]
  | cons request requests ih =>
    rw [fill, ih]
    simp [insert]

theorem Indexed.fill {board : Board α} (h : board.Indexed) (requests : List (Request α)) :
    (Board.fill newId name requests board).Indexed := by
  induction requests generalizing board with
  | nil => exact h
  | cons request requests ih => exact ih (h.insert _)

theorem size_fill (requests : List (Request α)) (board : Board α) :
    (fill newId name requests board).items.size = board.items.size + requests.length := by
  simpa using congrArg List.length (items_fill requests board)

/-- Items have ids of their own if the generator never repeats itself. -/
theorem nodup_fill (hi : Function.Injective newId) (requests : List (Request α)) :
    ((fill newId name requests {}).items.toList.map (·.id)).Nodup := by
  have hids : (fill newId name requests {}).items.toList.map (·.id) =
      ((requests.zipIdx 0).map Prod.snd).map newId := by
    rw [items_fill, List.map_map]
    exact List.map_map.trans rfl
  rw [hids, List.zipIdx_map_snd]
  exact List.Nodup.map hi List.nodup_range'

/-- Every item stands on the board under the id of its place. -/
theorem mem_ids_fill {requests : List (Request α)} {request : Request α} {place : Nat}
    (board : Board α) (h : requests[place]? = some request) :
    newId (board.items.size + place) ∈ (fill newId name requests board).ids request.kind := by
  rw [ids, items_fill, List.mem_map]
  refine ⟨⟨newId (board.items.size + place), name, request⟩, ?_, rfl⟩
  rw [List.mem_filter, List.mem_append]
  refine ⟨.inr (List.mem_map.2 ⟨(request, board.items.size + place), ?_, rfl⟩), by simp⟩
  rw [List.mem_zipIdx_iff_le_and_getElem?_sub]
  simpa using h

section Accepted
variable [Coordinate α] {board : Board α}

theorem rejection?_frame {item : FrameItem α} : board.rejection? (.frame item) = none ↔
    isUsableSize item.width item.height = true := by
  simp [rejection?]

theorem rejection?_box {item : BoxItem α String} : board.rejection? (.box item) = none ↔
    isUsableSize item.width item.height = true ∧ ∀ id ∈ item.parent, id ∈ board.frames := by
  rw [rejection?]
  split
  · next hu => simp [hu]
  · next hu => simp [hu]

theorem rejection?_line {item : LineItem String} : board.rejection? (.line item) = none ↔
    item.source ∈ board.boxes ∧ item.target ∈ board.boxes := by
  simp [rejection?]

/-- What is accepted on a board is accepted when there is more on it. -/
theorem rejection?_insert {request : Request α} (item : BoardItem α)
    (h : board.rejection? request = none) : (board.insert item).rejection? request = none := by
  cases request with
  | frame => exact rejection?_frame.2 (rejection?_frame.1 h)
  | box =>
    obtain ⟨hs, hp⟩ := rejection?_box.1 h
    exact rejection?_box.2 ⟨hs, fun id hm => mem_frames_insert.2 (.inl (hp id hm))⟩
  | line =>
    obtain ⟨hs, ht⟩ := rejection?_line.1 h
    exact rejection?_line.2 ⟨mem_boxes_insert.2 (.inl hs), mem_boxes_insert.2 (.inl ht)⟩

theorem create_of_accepted {request : Request α} (hn : name.toList.all Text.isBlank = false)
    (h : board.rejection? request = none) : board.create newId name request =
      (.ok (newId board.items.size), board.insert ⟨newId board.items.size, name, request⟩) := by
  rw [create, hn, h]
  rfl

/-- Requests that are accepted at the start are all served, each under the id of its place. -/
theorem serve_eq {setting : Setting α (Board α)} {requests : List (Request α)}
    (hc : setting.canvas = canvas newId) (hn : setting.board.toList.all Text.isBlank = false)
    (h : ∀ request ∈ requests, board.rejection? request = none) (number place : Nat) :
    serve setting number board ((requests.map some).zipIdx place) =
      ((List.range' board.items.size requests.length).map fun n => .created (newId n),
        fill newId setting.board requests board) := by
  induction requests generalizing board number place with
  | nil => rfl
  | cons request requests ih =>
    -- The first item is created, and the board still accepts all others after it.
    rw [List.forall_mem_cons] at h
    have ha : setting.canvas.answer board ⟨number, place, setting.board, request⟩ =
        (.ok (newId board.items.size),
          board.insert ⟨newId board.items.size, setting.board, request⟩) := by
      rw [hc]
      exact create_of_accepted hn h.1
    rw [List.map_cons, List.zipIdx_cons, serve, ha, ih fun r hr => rejection?_insert _ (h.2 r hr)]
    simp [List.range'_succ, insert, fill, Outcome.ofAnswer]

end Accepted
end Chartboard.Board
