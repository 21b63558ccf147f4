import Chartboard.Proofs.Checked.Cursor
import Chartboard.Proofs.Sequence.RoundTrip

namespace Chartboard.Checked
open Chartboard.Text Chartboard.Sequence

/-- The first of some places at which an arrow starts. -/
def arrowFrom (head : List Char) : List Nat → Option (Option (Nat × Arrow))
  | [] => some none
  | place :: more => do
    let tail ← slice? head place (byteSize head)
    match Arrow.all.find? fun arrow => startsWith arrow.spelling tail with
    | some arrow => return some (place, arrow)
    | none => arrowFrom head more

def dashes (start : Nat) (cs : List Char) : List Nat :=
  ((places start cs).filter (·.2 == '-')).map (·.1)

def findArrow (head : List Char) : Option (Option (Nat × Arrow)) :=
  arrowFrom head (dashes 0 head)

def isSkipped (line : List Char) : Option Bool :=
  if (words line).head?.any fun word => blockWords.any (sameLetters word) then do
    match ← findArrow (atColon line).1 with
    | none => return true
    | some (place, _) => return (trim (← slice? line 0 place)).any isBlank
  else
    some false

def unsigned : List Char → Option Activation × List Char
  | '+' :: r => (some .activate, trimStart r)
  | '-' :: r => (some .deactivate, trimStart r)
  | r => (none, r)

def tryMessage (line : List Char) : Option (Option Message) := do
  match ← findArrow (atColon line).1 with
  | none => return none
  | some (place, arrow) =>
    let sender := trim (← slice? line 0 place)
    let rest := trim (← slice? line (place + byteSize arrow.spelling) (byteSize line))
    let (target, text) := match cut [':'] rest with
      | some (target, text) => (trim target, trim text)
      | none => (rest, [])
    let (activation, receiver) := unsigned target
    if sender.isEmpty || receiver.isEmpty then
      return none
    else
      return some {
        sender := String.ofList sender
        receiver := String.ofList receiver
        text := String.ofList text
        arrow, activation }

def addSequenceLine (diagram : SequenceDiagram) (line : List Char) : Option SequenceDiagram := do
  match ← stripKeyword "participant".toList line with
  | some rest => return add diagram (.declaration (declared false rest))
  | none =>
    match ← stripKeyword "actor".toList line with
    | some rest => return add diagram (.declaration (declared true rest))
    | none =>
      if ← isSkipped line then
        return diagram
      else
        match ← tryMessage line with
        | some m => return add diagram (.message m)
        | none => return diagram

def sequenceOfLines (lines : List (List Char)) : Option SequenceDiagram :=
  lines.foldlM addSequenceLine {}

variable {cs head line : List Char}

theorem findSome?_after? (arrows : List Arrow) (cs : List Char) :
    (arrows.findSome? fun arrow => (after? arrow.spelling cs).map (arrow, ·)).map (·.1) =
      arrows.find? fun arrow => startsWith arrow.spelling cs := by
  induction arrows with
  | nil => rfl
  | cons arrow arrows ih =>
    rw [List.findSome?_cons, List.find?_cons, startsWith]
    cases after? arrow.spelling cs with
    | none => exact ih
    | some rest => rfl

/-- Going from dash to dash finds what going from character to character finds. -/
theorem arrowFrom_dashes (before cs : List Char) :
    arrowFrom (before ++ cs) (dashes (byteSize before) cs) =
      some ((findArrow? cs).map fun x => (byteSize before + byteSize x.1, x.2.1)) := by
  induction cs generalizing before with
  | nil => rfl
  | cons c cs ih =>
    have hrest := ih (before ++ [c])
    rw [← List.append_cons, byteSize_append, byteSize_cons, byteSize_nil, Nat.add_zero] at hrest
    have hgo : some ((findArrow? cs).map fun x =>
        (byteSize before + c.utf8Size + byteSize x.1, x.2.1)) =
        some (((findArrow? cs).map fun x => (c :: x.1, x.2)).map fun x =>
          (byteSize before + byteSize x.1, x.2.1)) := by
      simp [Function.comp_def, Nat.add_assoc]
    by_cases hc : c = '-'
    · subst hc
      have hfind := findSome?_after? Arrow.all ('-' :: cs)
      rw [← arrowAt?] at hfind
      have hdashes : dashes (byteSize before) ('-' :: cs) =
          byteSize before :: dashes (byteSize before + '-'.utf8Size) cs := rfl
      rw [hdashes, arrowFrom, slice?_back, findArrow?]
      simp only [Option.bind_eq_bind, Option.bind_some, ← hfind]
      cases arrowAt? ('-' :: cs) with
      | none => exact hrest.trans hgo
      | some found => rfl
    · have hdashes : dashes (byteSize before) (c :: cs) =
          dashes (byteSize before + c.utf8Size) cs := by
        simp [dashes, places, hc]
      rw [hdashes, findArrow?, arrowAt?_eq_none hc]
      exact hrest.trans hgo

theorem findArrow_eq (head : List Char) : findArrow head =
    some ((findArrow? head).map fun x => (byteSize x.1, x.2.1)) := by
  have h := arrowFrom_dashes [] head
  simp only [List.nil_append, byteSize_nil, Nat.zero_add] at h
  exact h

/-- Behind the arrow of a line come its receiver and, from the first colon on, its text. -/
theorem cut_behind {before after : List Char} {arrow : Arrow}
    (h : findArrow? (atColon line).1 = some (before, arrow, after)) :
    ∃ behind, line = before ++ (arrow.spelling ++ behind) ∧
      (match cut [':'] (trim behind) with
        | some (target, text) => (trim target, trim text)
        | none => (trim behind, [])) = (trim after, trim (atColon line).2) := by
  have he := eq_append_of_findArrow? h
  unfold atColon at he ⊢
  cases hc : cut [':'] line with
  | none =>
    rw [hc] at he
    have hcolon : ':' ∉ trim after := by
      intro hm
      refine cut_char_eq_none_iff.1 hc ?_
      change line = _ at he
      rw [he]
      exact List.mem_append_right _ (List.mem_append_right _ ((trim_sublist after).subset hm))
    refine ⟨after, he, ?_⟩
    rw [cut_char_eq_none_iff.2 hcolon]
    rfl
  | some found =>
    obtain ⟨head, text⟩ := found
    rw [hc] at he
    obtain ⟨hcolon, rfl⟩ := cut_char_eq_some_iff.1 hc
    change head = _ at he
    subst he
    have hafter : ':' ∉ trimStart after := by
      intro hm
      refine hcolon ?_
      exact List.mem_append_right _ (List.mem_append_right _ ((trimStart_suffix after).subset hm))
    refine ⟨after ++ ':' :: text, by simp, ?_⟩
    rw [trim_append_cons (by decide), cut_char hafter]
    simp

theorem isSkipped_eq (line : List Char) : isSkipped line = some (isBlock line) := by
  unfold isSkipped isBlock
  cases (words line).head?.any fun word => blockWords.any (sameLetters word) with
  | false => rfl
  | true =>
    simp only [if_true, findArrow_eq, Option.bind_eq_bind, Option.bind_some, Bool.true_and]
    cases hf : findArrow? (atColon line).1 with
    | none => rfl
    | some found =>
      obtain ⟨before, arrow, after⟩ := found
      obtain ⟨behind, he, -⟩ := cut_behind hf
      have hslice : slice? line 0 (byteSize before) = some before := by
        conv => lhs; rw [he]
        exact slice?_front _ _
      simp [hslice]

theorem receiver_eq (cs : List Char) : receiver cs = unsigned (trim cs) := rfl

theorem tryMessage_eq (line : List Char) : tryMessage line = some (message? line) := by
  unfold tryMessage message?
  simp only [findArrow_eq, Option.bind_eq_bind, Option.bind_some]
  cases hf : findArrow? (atColon line).1 with
  | none => rfl
  | some found =>
    obtain ⟨before, arrow, after⟩ := found
    obtain ⟨behind, he, hcut⟩ := cut_behind hf
    have hsender : slice? line 0 (byteSize before) = some before := by
      conv => lhs; rw [he]
      exact slice?_front _ _
    have hbehind : slice? line (byteSize before + byteSize arrow.spelling) (byteSize line) =
        some behind := by
      have hback := slice?_back (before ++ arrow.spelling) behind
      rwa [List.append_assoc, ← he, byteSize_append] at hback
    simp only [Option.map_some, hsender, hbehind, Option.bind_some, hcut, ← receiver_eq]
    exact (apply_ite some _ _ _).symm

theorem addSequenceLine_eq (diagram : SequenceDiagram) (line : List Char) :
    addSequenceLine diagram line = some (add diagram (Line.ofText line)) := by
  unfold addSequenceLine Line.ofText
  rw [stripKeyword_eq, stripKeyword_eq, isSkipped_eq, tryMessage_eq]
  simp only [Option.bind_eq_bind, Option.bind_some]
  cases afterKeyword? "participant".toList line with
  | some rest => rfl
  | none =>
    cases afterKeyword? "actor".toList line with
    | some rest => rfl
    | none =>
      cases isBlock line with
      | true => rfl
      | false => cases message? line <;> rfl

theorem sequenceOfLines_eq (lines : List (List Char)) :
    sequenceOfLines lines = some (SequenceDiagram.ofLines lines) := by
  rw [sequenceOfLines, SequenceDiagram.ofLines]
  generalize ({} : SequenceDiagram) = diagram
  induction lines generalizing diagram with
  | nil => rfl
  | cons line lines ih =>
    rw [List.foldlM_cons, addSequenceLine_eq]
    exact ih _

end Chartboard.Checked
