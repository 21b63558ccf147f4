import Chartboard.Proofs.Flow.WellFormed
import Chartboard.Proofs.Sequence.RoundTrip

namespace Chartboard
open Chartboard.Text Chartboard.Sequence

def SequenceDiagram.Joined (diagram : SequenceDiagram) : Prop :=
  ∀ m ∈ diagram.messages, m.sender ∈ diagram.participants.map (·.id) ∧
    m.receiver ∈ diagram.participants.map (·.id)

namespace Sequence

variable {diagram : SequenceDiagram}

@[simp] theorem messages_register (diagram : SequenceDiagram) (p : Participant) :
    (register diagram p).messages = diagram.messages := by
  unfold register
  split <;> rfl

theorem register_subset (diagram : SequenceDiagram) (p : Participant) :
    diagram.participants.map (·.id) ⊆ (register diagram p).participants.map (·.id) := by
  unfold register
  split
  · exact List.Subset.refl _
  · rw [List.map_append]
    exact List.subset_append_left _ _

theorem mem_register (diagram : SequenceDiagram) {p : Participant} (hn : p.id ≠ "") :
    p.id ∈ (register diagram p).participants.map (·.id) := by
  by_cases hk : p.id ∈ diagram.participants.map (·.id)
  · exact register_subset diagram p hk
  · rw [register_new hn hk, List.map_append]
    exact List.mem_append_right _ (List.mem_singleton_self _)

theorem message?_named {line : List Char} {m : Message} (h : message? line = some m) :
    m.sender ≠ "" ∧ m.receiver ≠ "" := by
  simp only [message?, Option.bind_eq_bind, Option.bind_eq_some_iff] at h
  obtain ⟨⟨before, arrow, after⟩, -, h⟩ := h
  dsimp only at h
  split at h
  · cases h
  · next he =>
    rw [Bool.or_eq_true, not_or, List.isEmpty_iff, List.isEmpty_iff] at he
    cases h
    simpa using he

/-- A line in which a message has a sender and a receiver. -/
def Line.Named : Line → Prop
  | .message m => m.sender ≠ "" ∧ m.receiver ≠ ""
  | _ => True

theorem Line.ofText_named (cs : List Char) : (Line.ofText cs).Named := by
  unfold Line.ofText
  split
  · trivial
  · split
    · trivial
    · split
      · trivial
      · split
        · next hm => exact message?_named hm
        · trivial

end Sequence

namespace SequenceDiagram.Joined

variable {diagram : SequenceDiagram}

theorem register (h : diagram.Joined) (p : Participant) : (register diagram p).Joined := by
  intro m hm
  rw [messages_register] at hm
  obtain ⟨hs, hr⟩ := h m hm
  exact ⟨register_subset diagram p hs, register_subset diagram p hr⟩

theorem add (h : diagram.Joined) {line : Line} (hn : line.Named) :
    (Sequence.add diagram line).Joined := by
  cases line with
  | declaration p => exact h.register p
  | message m =>
    obtain ⟨hs, hr⟩ := hn
    have hsent := mem_register diagram (p := undeclared m.sender) hs
    have hold := (h.register (undeclared m.sender)).register (undeclared m.receiver)
    simp only [Sequence.add, Joined, List.forall_mem_append, List.forall_mem_singleton]
    exact ⟨hold, register_subset _ _ hsent, mem_register _ hr⟩
  | other => exact h

theorem foldl (h : diagram.Joined) {lines : List Line} (hn : ∀ line ∈ lines, line.Named) :
    (lines.foldl Sequence.add diagram).Joined := by
  induction lines generalizing diagram with
  | nil => exact h
  | cons line lines ih =>
    rw [List.forall_mem_cons] at hn
    exact ih (h.add hn.1) hn.2

end SequenceDiagram.Joined

/-- Every message of a diagram that is read is between its participants. -/
theorem Diagram.joined_of_read {text : List Char} {diagram : SequenceDiagram}
    (h : Diagram.read text = .ok (.sequence diagram)) : diagram.Joined := by
  obtain ⟨header, lines, he⟩ := Diagram.exists_lines h
  cases header with
  | flow direction => cases he
  | sequence =>
    cases he
    refine SequenceDiagram.Joined.foldl (by simp [SequenceDiagram.Joined]) ?_
    intro line hm
    obtain ⟨cs, -, rfl⟩ := List.mem_map.1 hm
    exact Line.ofText_named cs

end Chartboard
