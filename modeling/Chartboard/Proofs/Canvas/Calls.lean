import Chartboard.Canvas.Identifier
import Chartboard.Proofs.Canvas.Board
import Mathlib.Data.Set.Function

namespace Chartboard

variable {α : Type}

def Request.references : Request α → List (Kind × String)
  | .frame _ => []
  | .box item => item.parent.toList.map (Kind.frame, ·)
  | .line item => [(.box, item.source), (.box, item.target)]

def Request.size? : Request α → Option (α × α)
  | .frame item => some (item.width, item.height)
  | .box item => some (item.width, item.height)
  | .line _ => none

def Request.Sized [Coordinate α] (request : Request α) : Prop :=
  ∀ size ∈ request.size?, (isFinite size.1 = true ∧ isFinite size.2 = true) ∧
    isPositive size.1 = true ∧ isPositive size.2 = true

namespace Board

/-- Whether all that a request refers to stands on the board. -/
def Knows (board : Board α) (request : Request α) : Prop :=
  ∀ ref ∈ request.references, ref.2 ∈ board.ids ref.1

/-- Every item refers to items that stand before it. -/
def Grounded (board : Board α) : Prop :=
  ∀ (place : Nat) (item : BoardItem α), board.items[place]? = some item →
    ∀ ref ∈ item.request.references, ∃ earlier < place, ∃ target : BoardItem α,
      board.items[earlier]? = some target ∧ target.request.kind = ref.1 ∧ target.id = ref.2

/-- Items have ids of their own, the board knows them by their kinds, and no reference dangles. -/
structure Consistent (board : Board α) : Prop where
  distinct : (board.items.toList.map (·.id)).Nodup
  indexed : board.Indexed
  grounded : board.Grounded

/-- What a board takes. -/
structure Takes [Coordinate α] (board : Board α) (call : Call α) : Prop where
  named : call.board.toList.all Text.isBlank = false
  sized : call.request.Sized
  known : board.Knows call.request

theorem mem_ids {board : Board α} {kind : Kind} {id : String} : id ∈ board.ids kind ↔
    ∃ (place : Nat) (item : BoardItem α), board.items[place]? = some item ∧
      item.request.kind = kind ∧ item.id = id := by
  simp only [ids, List.mem_map, List.mem_filter, decide_eq_true_eq]
  constructor
  · rintro ⟨item, ⟨hm, hk⟩, hid⟩
    obtain ⟨place, hp⟩ := List.mem_iff_getElem?.1 hm
    exact ⟨place, item, by simpa using hp, hk, hid⟩
  · rintro ⟨place, item, hp, hk, hid⟩
    exact ⟨item, ⟨List.mem_iff_getElem?.2 ⟨place, by simpa using hp⟩, hk⟩, hid⟩

theorem Grounded.insert {board : Board α} (h : board.Grounded) {item : BoardItem α}
    (hr : board.Knows item.request) : (board.insert item).Grounded := by
  -- What stands on the board keeps its place.
  have hkept : ∀ {place : Nat} {target : BoardItem α}, board.items[place]? = some target →
      place < board.items.size ∧ (board.insert item).items[place]? = some target := by
    intro place target hp
    have hlt := (Array.getElem?_eq_some_iff.1 hp).1
    refine ⟨hlt, ?_⟩
    rw [Board.insert, Array.getElem?_push, if_neg (Nat.ne_of_lt hlt), hp]
  intro place other hp ref hm
  rw [Board.insert, Array.getElem?_push] at hp
  split at hp
  · next he =>
    cases hp
    obtain ⟨earlier, target, ht, hk, hid⟩ := mem_ids.1 (hr ref hm)
    obtain ⟨hlt, hi⟩ := hkept ht
    exact ⟨earlier, he ▸ hlt, target, hi, hk, hid⟩
  · obtain ⟨earlier, hlt, target, ht, hk, hid⟩ := h place other hp ref hm
    exact ⟨earlier, hlt, target, (hkept ht).2, hk, hid⟩

variable {newId : Nat → String}

/-- A board whose items are numbered by their places. -/
structure Numbered (newId : Nat → String) (board : Board α) : Prop where
  ids : board.items.toList.map (·.id) = (List.range board.items.size).map newId
  indexed : board.Indexed
  grounded : board.Grounded

theorem Numbered.empty : Numbered newId ({} : Board α) :=
  ⟨rfl, Indexed.empty, by simp [Grounded]⟩

/-- Items are distinct as far as the generator does not repeat itself. -/
theorem Numbered.consistent {board : Board α} (h : Numbered newId board) {count : Nat}
    (hs : board.items.size ≤ count) (hi : Set.InjOn newId {n | n < count}) : board.Consistent := by
  refine ⟨?_, h.indexed, h.grounded⟩
  rw [h.ids]
  refine List.Nodup.map_on ?_ List.nodup_range
  intro n hn m hm he
  exact hi ((List.mem_range.1 hn).trans_le hs) ((List.mem_range.1 hm).trans_le hs) he

variable [Coordinate α]

theorem rejection?_eq_none_iff {board : Board α} (h : board.Indexed) {request : Request α} :
    board.rejection? request = none ↔ request.Sized ∧ board.Knows request := by
  unfold Request.Sized Knows
  cases request with
  | frame item =>
    rw [rejection?_frame]
    simp [Request.size?, Request.references, isUsableSize, and_assoc]
  | box item =>
    rw [rejection?_box]
    simp [Request.size?, Request.references, isUsableSize, and_assoc, h.frames]
  | line item =>
    rw [rejection?_line]
    simp [Request.size?, Request.references, h.boxes]

/-- A board takes a call and creates its item, or refuses it and stays as it is. -/
theorem answer_cases (newId : Nat → String) {board : Board α} (h : board.Indexed) (call : Call α) :
    (board.Takes call ∧ (canvas newId).answer board call = (.ok (newId board.items.size),
      board.insert ⟨newId board.items.size, call.board, call.request⟩)) ∨
    (¬ board.Takes call ∧ ∃ why, (canvas newId).answer board call = (.error why, board)) := by
  cases hn : call.board.toList.all Text.isBlank with
  | true =>
    refine .inr ⟨fun ht => ?_, .boardNotFound call.board, ?_⟩
    · rw [ht.named] at hn
      cases hn
    · simp only [canvas, create]
      rw [if_pos hn]
  | false =>
    cases hr : board.rejection? call.request with
    | some why =>
      refine .inr ⟨fun ht => ?_, .rejected why, ?_⟩
      · rw [(rejection?_eq_none_iff h).2 ⟨ht.sized, ht.known⟩] at hr
        cases hr
      · simp only [canvas, create, hn, hr]
        rfl
    | none =>
      obtain ⟨hs, hk⟩ := (rejection?_eq_none_iff h).1 hr
      exact .inl ⟨⟨hn, hs, hk⟩, create_of_accepted hn hr⟩

/-- A board after calls that were made one after another. -/
def after (newId : Nat → String) (board : Board α) (calls : List (Call α)) : Board α :=
  calls.foldl (fun board call => ((canvas newId).answer board call).2) board

/-- The calls that succeed when all are made one after another. -/
def succeeding (newId : Nat → String) : Board α → List (Call α) → List (Call α)
  | _, [] => []
  | board, call :: calls =>
    let answered := (canvas newId).answer board call
    let rest := succeeding newId answered.2 calls
    match answered.1 with
    | .ok _ => call :: rest
    | .error _ => rest

theorem Numbered.answer {board : Board α} (h : Numbered newId board) (call : Call α) :
    Numbered newId ((canvas newId).answer board call).2 := by
  obtain ⟨ht, ha⟩ | ⟨-, why, ha⟩ := answer_cases newId h.indexed call
  · rw [ha]
    refine ⟨?_, h.indexed.insert _, h.grounded.insert ht.known⟩
    simp [insert, List.range_succ, h.ids]
  · rw [ha]
    exact h

theorem Numbered.after {board : Board α} (h : Numbered newId board) (calls : List (Call α)) :
    Numbered newId (board.after newId calls) := by
  induction calls generalizing board with
  | nil => exact h
  | cons call calls ih => exact ih (h.answer call)

theorem size_answer_le (newId : Nat → String) (board : Board α) (call : Call α) :
    ((canvas newId).answer board call).2.items.size ≤ board.items.size + 1 := by
  simp only [canvas, create]
  split
  · exact Nat.le_succ _
  · split
    · exact Nat.le_succ _
    · exact Nat.le_of_eq (Array.size_push _)

theorem size_after_le (newId : Nat → String) (board : Board α) (calls : List (Call α)) :
    (board.after newId calls).items.size ≤ board.items.size + calls.length := by
  induction calls generalizing board with
  | nil => exact Nat.le_refl _
  | cons call calls ih =>
    have ha := size_answer_le newId board call
    have hr := ih ((canvas newId).answer board call).2
    rw [List.length_cons]
    exact hr.trans (by omega)

/-- Calls that fail leave nothing behind. -/
theorem after_succeeding {board : Board α} (h : board.Indexed) (calls : List (Call α)) :
    board.after newId (succeeding newId board calls) = board.after newId calls := by
  induction calls generalizing board with
  | nil => rfl
  | cons call calls ih =>
    obtain ⟨-, ha⟩ | ⟨-, why, ha⟩ := answer_cases newId h call
    · have hr := ih (h.insert ⟨newId board.items.size, call.board, call.request⟩)
      simp only [succeeding, after, List.foldl_cons, ha] at hr ⊢
      exact hr
    · have hr := ih h
      simp only [succeeding, after, List.foldl_cons, ha] at hr ⊢
      exact hr

end Board

open Board

/-- Any calls leave a consistent board, on which the next call succeeds if and only if the board
takes it. Then its item stands behind the others as it was asked for; else nothing has changed, as
if the call had not been made. -/
theorem calls_keep_board_consistent [Coordinate α] (newId : Nat → String) (calls : List (Call α))
    (hi : Set.InjOn newId {n | n < calls.length}) :
    let board := Board.after newId {} calls
    board.Consistent ∧
    (∀ call, (∃ id after, (canvas newId).answer board call = (.ok id, after)) ↔ board.Takes call) ∧
    (∀ call id after, (canvas newId).answer board call = (.ok id, after) →
      after.items = board.items.push ⟨id, call.board, call.request⟩) ∧
    (∀ call why after, (canvas newId).answer board call = (.error why, after) → after = board) ∧
    Board.after newId {} (succeeding newId {} calls) = board := by
  intro board
  have hn : Numbered newId board := Numbered.empty.after calls
  have hs : board.items.size ≤ calls.length := by simpa using size_after_le newId {} calls
  refine ⟨hn.consistent hs hi, ?_, ?_, ?_, after_succeeding Indexed.empty calls⟩
  · intro call
    obtain ⟨ht, ha⟩ | ⟨ht, why, ha⟩ := answer_cases newId hn.indexed call
    · simp [ha, ht]
    · simp [ha, ht]
  · intro call id after he
    obtain ⟨-, ha⟩ | ⟨-, why, ha⟩ := answer_cases newId hn.indexed call
    · cases ha.symm.trans he
      rfl
    · cases ha.symm.trans he
  · intro call why after he
    obtain ⟨-, ha⟩ | ⟨-, other, ha⟩ := answer_cases newId hn.indexed call
    · cases ha.symm.trans he
    · cases ha.symm.trans he
      rfl

theorem identifier_injOn (seed : Nat) {count : Nat} (h : count ≤ 0x1000000000000) :
    Set.InjOn (identifier seed) {n | n < count} :=
  fun _ hn _ hm => identifier_inj (Nat.lt_of_lt_of_le hn h) (Nat.lt_of_lt_of_le hm h)

/-- A frame and one without a width, a box in the first frame and one in no known frame, and lines
from the box to itself and to the frame. -/
def gallery : List (Call Rat) :=
  let frame := fun width => Request.frame ⟨none, 0, 0, width, 9, none⟩
  let box := fun parent => Request.box ⟨.rectangle, false, "b", 0, 0, 2, 1, none, none, some parent⟩
  let line := fun target =>
    Request.line ⟨identifier 7 1, target, none, .solid, .straight, .none, .none⟩
  [frame 9, frame 0, box (identifier 7 0), box "cellar", line (identifier 7 1),
    line (identifier 7 0)].zipIdx.map fun (request, place) => ⟨place, place, "wall", request⟩

def gallery.another (name : String) : Call Rat :=
  ⟨6, 6, name, .frame ⟨none, 0, 0, 9, 9, none⟩⟩

theorem gallery_consistent :
    Set.InjOn (identifier 7) {n | n < gallery.length} ∧
    let board := Board.after (identifier 7) {} gallery
    board.Consistent ∧
    (∃ id after, (canvas (identifier 7)).answer board (gallery.another "wall") = (.ok id, after) ∧
      after.items = board.items.push ⟨id, "wall", (gallery.another "wall").request⟩) ∧
    (∃ why, (canvas (identifier 7)).answer board (gallery.another " ") = (.error why, board)) ∧
    Board.after (identifier 7) {} (succeeding (identifier 7) {} gallery) = board := by
  have hi : Set.InjOn (identifier 7) {n | n < gallery.length} := identifier_injOn 7 (by decide)
  obtain ⟨hc, htakes, hpush, hkept, hdrop⟩ := calls_keep_board_consistent (identifier 7) gallery hi
  refine ⟨hi, hc, ?_, ?_, hdrop⟩
  · have ht : (Board.after (identifier 7) {} gallery).Takes (gallery.another "wall") := by
      refine ⟨by decide, ?_, nofun⟩
      unfold Request.Sized
      decide +kernel
    obtain ⟨id, after, ha⟩ := (htakes (gallery.another "wall")).2 ht
    exact ⟨id, after, ha, hpush _ id after ha⟩
  · cases ha : (canvas (identifier 7)).answer (Board.after (identifier 7) {} gallery)
      (gallery.another " ") with
    | mk answer after =>
      cases answer with
      | ok id => exact absurd ((htakes _).1 ⟨id, after, ha⟩).named (by decide)
      | error why => exact ⟨why, by rw [hkept _ why after ha]⟩

end Chartboard
