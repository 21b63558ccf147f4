import Chartboard.Proofs.Canvas.Calls

namespace Chartboard
namespace Board

variable {α : Type}

/-- A call that refers to no item of another board. -/
def Admits (board : Board α) (call : Call α) : Prop :=
  ∀ ref ∈ call.request.references, ∀ item ∈ board.items, item.id = ref.2 → item.board = call.board

/-- Every reference leads to an item of its kind, on whatever board. -/
def Closed (board : Board α) : Prop :=
  ∀ item ∈ board.items, ∀ ref ∈ item.request.references, ∃ target ∈ board.items,
    target.request.kind = ref.1 ∧ target.id = ref.2

/-- Every reference leads to an item of its kind on the same board. -/
def Apart (board : Board α) : Prop :=
  ∀ item ∈ board.items, ∀ ref ∈ item.request.references, ∃ target ∈ board.items,
    target.request.kind = ref.1 ∧ target.id = ref.2 ∧ target.board = item.board

theorem Apart.empty : ({} : Board α).Apart := by
  simp [Apart]

theorem Apart.insert {board : Board α} (h : board.Apart) {id : String} {call : Call α}
    (hk : board.Knows call.request) (ha : board.Admits call) :
    (board.insert ⟨id, call.board, call.request⟩).Apart := by
  intro item hm ref hr
  -- What stood on the board still does.
  have hkept : ∀ {target : BoardItem α}, target ∈ board.items →
      target ∈ (board.insert ⟨id, call.board, call.request⟩).items :=
    fun ht => Array.mem_push.2 (.inl ht)
  rcases Array.mem_push.1 hm with hm | rfl
  · obtain ⟨target, ht, hkind, hid, hb⟩ := h item hm ref hr
    exact ⟨target, hkept ht, hkind, hid, hb⟩
  · obtain ⟨place, target, hp, hkind, hid⟩ := mem_ids.1 (hk ref hr)
    have ht : target ∈ board.items := Array.mem_of_getElem? hp
    exact ⟨target, hkept ht, hkind, hid, ha ref hr target ht hid⟩

theorem Grounded.closed {board : Board α} (h : board.Grounded) : board.Closed := by
  intro item hm ref hr
  obtain ⟨place, hp⟩ := Array.mem_iff_getElem?.1 hm
  obtain ⟨earlier, -, target, ht, hk, hid⟩ := h place item hp ref hr
  exact ⟨target, Array.mem_of_getElem? ht, hk, hid⟩

variable [Coordinate α] {newId : Nat → String}

theorem mem_answer {board : Board α} {call : Call α} {item : BoardItem α}
    (h : item ∈ ((canvas newId).answer board call).2.items) :
    item ∈ board.items ∨ item = ⟨newId board.items.size, call.board, call.request⟩ := by
  simp only [canvas, create] at h
  split at h
  · exact .inl h
  · split at h
    · exact .inl h
    · exact Array.mem_push.1 h

theorem mem_answer_of_mem {board : Board α} {item : BoardItem α} (h : item ∈ board.items)
    (call : Call α) : item ∈ ((canvas newId).answer board call).2.items := by
  simp only [canvas, create]
  split
  · exact h
  · split
    · exact h
    · exact Array.mem_push.2 (.inl h)

theorem mem_after {board : Board α} {item : BoardItem α} (h : item ∈ board.items)
    (calls : List (Call α)) : item ∈ (board.after newId calls).items := by
  induction calls generalizing board with
  | nil => exact h
  | cons call calls ih => exact ih (mem_answer_of_mem h call)

theorem Indexed.answer {board : Board α} (hi : board.Indexed) (call : Call α) :
    ((canvas newId).answer board call).2.Indexed := by
  obtain ⟨-, he⟩ | ⟨-, why, he⟩ := answer_cases newId hi call
  · rw [he]
    exact hi.insert _
  · rw [he]
    exact hi

theorem Apart.answer {board : Board α} (h : board.Apart) (hi : board.Indexed) {call : Call α}
    (ha : board.Takes call → board.Admits call) : ((canvas newId).answer board call).2.Apart := by
  obtain ⟨ht, he⟩ | ⟨-, why, he⟩ := answer_cases newId hi call
  · rw [he]
    exact h.insert ht.known (ha ht)
  · rw [he]
    exact h

/-- Calls of which none that the board takes refers to an item that then stands on another. -/
def AdmitsAll (newId : Nat → String) : Board α → List (Call α) → Prop
  | _, [] => True
  | board, call :: calls =>
    (board.Takes call → board.Admits call) ∧
      AdmitsAll newId ((canvas newId).answer board call).2 calls

theorem Apart.after {board : Board α} (hi : board.Indexed) (h : board.Apart)
    {calls : List (Call α)} (ha : AdmitsAll newId board calls) :
    (board.after newId calls).Apart := by
  induction calls generalizing board with
  | nil => exact h
  | cons call calls ih => exact ih (hi.answer call) (h.answer hi ha.1) ha.2

/-- A reference to an item of another board stays for good. -/
theorem Apart.admitsAll {board : Board α} (hi : board.Indexed) {calls : List (Call α)}
    (h : (board.after newId calls).Apart)
    (hd : ((board.after newId calls).items.toList.map (·.id)).Nodup) :
    AdmitsAll newId board calls := by
  induction calls generalizing board with
  | nil => trivial
  | cons call calls ih =>
    refine ⟨fun ht ref hr item hm hid => ?_, ih (hi.answer call) h hd⟩
    obtain ⟨-, he⟩ | ⟨hn, -⟩ := answer_cases newId hi call
    · -- The new item and the one to which it refers are both there in the end.
      have hnew : ⟨newId board.items.size, call.board, call.request⟩ ∈
          ((canvas newId).answer board call).2.items := by
        rw [he]
        exact Array.mem_push.2 (.inr rfl)
      have hold : item ∈ (board.after newId (call :: calls)).items := mem_after hm _
      obtain ⟨target, htarget, -, hid', hboard⟩ := h _ (mem_after hnew calls) ref hr
      have heq : item = target := List.inj_on_of_nodup_map hd (Array.mem_toList_iff.2 hold)
        (Array.mem_toList_iff.2 htarget) (hid.trans hid'.symm)
      rw [heq, hboard]
    · exact absurd ht hn

/-- Calls that all name one board refer to no item of another. -/
theorem admitsAll_of_board {board : Board α} {name : String}
    (hb : ∀ item ∈ board.items, item.board = name) {calls : List (Call α)}
    (hc : ∀ call ∈ calls, call.board = name) : AdmitsAll newId board calls := by
  induction calls generalizing board with
  | nil => trivial
  | cons call calls ih =>
    rw [List.forall_mem_cons] at hc
    refine ⟨fun _ ref hr item hm hid => (hb item hm).trans hc.1.symm, ih ?_ hc.2⟩
    intro item hm
    rcases mem_answer hm with hm | rfl
    · exact hb item hm
    · exact hc.1

/-- The board that a call names has no part in whether the call succeeds, unless it is blank. -/
theorem takes_elsewhere {board : Board α} {call : Call α} {name : String}
    (hc : call.board.toList.all Text.isBlank = false) (hn : name.toList.all Text.isBlank = false) :
    board.Takes { call with board := name } ↔ board.Takes call :=
  ⟨fun h => ⟨hc, h.sized, h.known⟩, fun h => ⟨hn, h.sized, h.known⟩⟩

end Board

open Board

/-- After any calls every reference leads to an item of its kind, and whether a call succeeds does
not depend on the board that it names. The references stay on their boards exactly if no call has
succeeded that referred to an item of another board, and in particular if all calls have named the
same. -/
theorem references_stay_apart_with_calls [Coordinate α] (newId : Nat → String)
    (calls : List (Call α)) (hi : Set.InjOn newId {n | n < calls.length}) :
    let board := Board.after newId {} calls
    board.Closed ∧
    (∀ call name, call.board.toList.all Text.isBlank = false →
      name.toList.all Text.isBlank = false →
      ((∃ id after, (canvas newId).answer board { call with board := name } = (.ok id, after)) ↔
        ∃ id after, (canvas newId).answer board call = (.ok id, after))) ∧
    (board.Apart ↔ AdmitsAll newId {} calls) ∧
    ((∀ call ∈ calls, ∀ other ∈ calls, call.board = other.board) → board.Apart) := by
  intro board
  have hn : Numbered newId board := Numbered.empty.after calls
  have hs : board.items.size ≤ calls.length := by simpa using size_after_le newId {} calls
  have hsucceeds : ∀ call,
      (∃ id after, (canvas newId).answer board call = (.ok id, after)) ↔ board.Takes call := by
    intro call
    obtain ⟨ht, ha⟩ | ⟨ht, why, ha⟩ := answer_cases newId hn.indexed call
    · simp [ha, ht]
    · simp [ha, ht]
  refine ⟨hn.grounded.closed, ?_, ?_, ?_⟩
  · intro call name hc hb
    rw [hsucceeds, hsucceeds, takes_elsewhere hc hb]
  · exact ⟨fun h => h.admitsAll Indexed.empty (hn.consistent hs hi).distinct,
      Apart.empty.after Indexed.empty⟩
  · intro hone
    refine Apart.empty.after Indexed.empty ?_
    cases calls with
    | nil => trivial
    | cons first calls =>
      have hfirst : ∀ call ∈ first :: calls, call.board = first.board :=
        fun call hm => hone call hm first List.mem_cons_self
      exact admitsAll_of_board (by simp) hfirst

def framed (name : String) : Call Rat :=
  ⟨0, 0, name, .frame ⟨none, 0, 0, 9, 9, none⟩⟩

def boxed (name parent : String) : Call Rat :=
  ⟨1, 0, name, .box ⟨.rectangle, false, "b", 0, 0, 2, 1, none, none, some parent⟩⟩

theorem answer_framed {newId : Nat → String} {board : Board Rat} {name : String}
    (hn : name.toList.all Text.isBlank = false) :
    (canvas newId).answer board (framed name) = (.ok (newId board.items.size),
      board.insert ⟨newId board.items.size, name, (framed name).request⟩) := by
  have hs : isUsableSize (9 : Rat) 9 = true := by decide +kernel
  have hr : board.rejection? (framed name).request = none := rejection?_frame.2 hs
  exact create_of_accepted hn hr

theorem answer_boxed {newId : Nat → String} {board : Board Rat} {name parent : String}
    (hn : name.toList.all Text.isBlank = false) (hp : parent ∈ board.frames) :
    (canvas newId).answer board (boxed name parent) = (.ok (newId board.items.size),
      board.insert ⟨newId board.items.size, name, (boxed name parent).request⟩) := by
  have hs : isUsableSize (2 : Rat) 1 = true := by decide +kernel
  have hr : board.rejection? (boxed name parent).request = none := by
    refine rejection?_box.2 ⟨hs, ?_⟩
    rintro id ⟨⟩
    exact hp
  exact create_of_accepted hn hr

/-- A box on one board, in a frame on another. -/
def crossed : List (Call Rat) :=
  [framed "attic", boxed "cellar" (identifier 7 0)]

theorem crossed_not_apart : ¬ (Board.after (identifier 7) {} crossed).Apart := by
  let attic : Board Rat := Board.insert {} ⟨identifier 7 0, "attic", (framed "attic").request⟩
  let box : BoardItem Rat :=
    ⟨identifier 7 1, "cellar", (boxed "cellar" (identifier 7 0)).request⟩
  have hboard : Board.after (identifier 7) {} crossed = attic.insert box := by
    have hframe : (canvas (identifier 7)).answer {} (framed "attic") =
        (.ok (identifier 7 0), attic) := answer_framed (by decide)
    have hbox : (canvas (identifier 7)).answer attic (boxed "cellar" (identifier 7 0)) =
        (.ok (identifier 7 1), attic.insert box) :=
      answer_boxed (by decide) (mem_frames_insert.2 (.inr ⟨rfl, rfl⟩))
    simp only [Board.after, crossed, List.foldl_cons, List.foldl_nil, hframe, hbox]
  intro h
  rw [hboard] at h
  obtain ⟨target, ht, hk, -, hb⟩ := h box (Array.mem_push.2 (.inr rfl)) (.frame, identifier 7 0)
    List.mem_cons_self
  rcases Array.mem_push.1 ht with ht | rfl
  · rcases Array.mem_push.1 ht with ht | rfl
    · exact absurd ht (Array.not_mem_empty _)
    · exact absurd hb (by decide)
  · cases hk

/-- Frames on two boards, and a box in the second frame. -/
def neighbours : List (Call Rat) :=
  [framed "attic", framed "cellar", boxed "cellar" (identifier 7 1)]

theorem neighbours_apart : Set.InjOn (identifier 7) {n | n < neighbours.length} ∧
    (Board.after (identifier 7) {} neighbours).Closed ∧
    (Board.after (identifier 7) {} neighbours).Apart := by
  have hi : Set.InjOn (identifier 7) {n | n < neighbours.length} :=
    identifier_injOn 7 (by decide)
  obtain ⟨hc, -, hapart, -⟩ := references_stay_apart_with_calls (identifier 7) neighbours hi
  refine ⟨hi, hc, hapart.2 ?_⟩
  let attic : Board Rat := Board.insert {} ⟨identifier 7 0, "attic", (framed "attic").request⟩
  have hattic : (canvas (identifier 7)).answer {} (framed "attic") =
      (.ok (identifier 7 0), attic) := answer_framed (by decide)
  have hcellar : (canvas (identifier 7)).answer attic (framed "cellar") =
      (.ok (identifier 7 1),
        attic.insert ⟨identifier 7 1, "cellar", (framed "cellar").request⟩) :=
    answer_framed (by decide)
  refine ⟨nofun, nofun, ?_, trivial⟩
  rw [hattic, hcellar]
  intro _ ref href item hm hid
  cases List.mem_singleton.1 href
  rcases Array.mem_push.1 hm with hm | rfl
  · rcases Array.mem_push.1 hm with hm | rfl
    · exact absurd hm (Array.not_mem_empty _)
    · exact absurd (hi (by decide) (by decide) hid) (by decide)
  · rfl

end Chartboard
