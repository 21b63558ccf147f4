import Chartboard.Proofs.Diagram.Noise
import Chartboard.Proofs.Sequence.Participants
import Mathlib.Data.List.Pairwise

namespace Chartboard
open Chartboard.Text Chartboard.Sequence

namespace Sequence

variable {line cs : List Char} {seen : List Participant} {diagram : SequenceDiagram}

/-- Whom a line brings up, as they are known from this line. A declaration without an id declares
nobody, and a message brings up its sender before its receiver. -/
def Line.introduces : Line → List Participant
  | .declaration p => if p.id.isEmpty then [] else [p]
  | .message m => [undeclared m.sender, undeclared m.receiver]
  | .other => []

def Line.message? : Line → Option Message
  | .message m => some m
  | _ => none

def appearances (lines : List Line) : List Participant :=
  lines.flatMap Line.introduces

/-- A line that was read as a message until it turned out to be none: no arrow stands before its
first colon, or nobody stands on one side of the first arrow. -/
def Rejected (line : List Char) : Prop :=
  (∀ arrow : Arrow, ¬ arrow.spelling <:+: (atColon line).1) ∨
    ∃ before arrow after, findArrow? (atColon line).1 = some (before, arrow, after) ∧
      (trim before = [] ∨ (receiver after).2 = [])

theorem mem_all (arrow : Arrow) : arrow ∈ Arrow.all := by
  obtain ⟨dashed, head⟩ := arrow
  cases dashed <;> cases head <;> decide

theorem arrowAt?_eq_none_iff :
    arrowAt? cs = none ↔ ∀ arrow : Arrow, ¬ arrow.spelling <+: cs := by
  simp only [arrowAt?, List.findSome?_eq_none_iff, Option.map_eq_none_iff, after?_eq_none_iff]
  exact ⟨fun h arrow => h arrow (mem_all arrow), fun h arrow _ => h arrow⟩

theorem findArrow?_eq_none_iff :
    findArrow? cs = none ↔ ∀ arrow : Arrow, ¬ arrow.spelling <:+: cs := by
  induction cs with
  | nil =>
    refine ⟨fun _ arrow h => ?_, fun _ => rfl⟩
    obtain ⟨r, hs, -⟩ := spelling_cons arrow
    simp [hs] at h
  | cons c cs ih =>
    simp only [List.infix_cons_iff, not_or, forall_and, ← ih, ← arrowAt?_eq_none_iff]
    cases ha : arrowAt? (c :: cs) with
    | none => simp [findArrow?, ha]
    | some found => simp [findArrow?, ha]

theorem message?_eq_none_iff : message? line = none ↔ Rejected line := by
  cases hf : findArrow? (atColon line).1 with
  | none => simp [message?, Rejected, hf, findArrow?_eq_none_iff.1 hf]
  | some found =>
    obtain ⟨before, arrow, after⟩ := found
    have harrow : ¬ ∀ arrow : Arrow, ¬ arrow.spelling <:+: (atColon line).1 := by
      rw [← findArrow?_eq_none_iff, hf]
      exact Option.some_ne_none _
    simp [message?, Rejected, hf, harrow, or_iff_not_imp_left]

def Line.Trimmed : Line → Prop
  | .declaration p => trim p.id.toList = p.id.toList
  | .message m => trim m.sender.toList = m.sender.toList ∧
      trim m.receiver.toList = m.receiver.toList ∧ trim m.text.toList = m.text.toList
  | .other => True

theorem trim_receiver (cs : List Char) : trim (receiver cs).2 = (receiver cs).2 := by
  have hlast : ∀ {sign : Char} {r : List Char}, trim cs = sign :: r →
      ∀ c ∈ r.getLast?, isBlank c = false := by
    intro sign r he c hc
    refine last_of_trim (trim_trim cs) c ?_
    rw [he, List.getLast?_cons, Option.mem_def.1 hc]
    rfl
  unfold receiver
  split
  · next he => exact trim_trimStart_of_last (hlast he)
  · next he => exact trim_trimStart_of_last (hlast he)
  · exact trim_trim cs

theorem message?_trimmed {m : Message} (h : message? line = some m) :
    (Line.message m).Trimmed := by
  simp only [message?, Option.bind_eq_bind, Option.bind_eq_some_iff] at h
  obtain ⟨⟨before, arrow, after⟩, -, h⟩ := h
  dsimp only at h
  split at h
  · cases h
  · cases h
    simp [Line.Trimmed, trim_receiver]

theorem declared_trimmed (actor : Bool) (cs : List Char) :
    (Line.declaration (declared actor cs)).Trimmed := by
  unfold declared
  split <;> simp [Line.Trimmed]

theorem Line.ofText_trimmed (cs : List Char) : (Line.ofText cs).Trimmed := by
  unfold Line.ofText
  split
  · exact declared_trimmed false _
  · split
    · exact declared_trimmed true _
    · split
      · trivial
      · split
        · next hm => exact message?_trimmed hm
        · trivial

theorem introduces_neat (cs : List Char) : ∀ p ∈ (Line.ofText cs).introduces,
    p.id ≠ "" ∧ trim p.id.toList = p.id.toList := by
  have ht := Line.ofText_trimmed cs
  have hn := Line.ofText_named cs
  cases hl : Line.ofText cs with
  | declaration p =>
    rw [hl] at ht
    intro q hq
    by_cases hp : p.id.isEmpty = true
    · simp [Line.introduces, hp] at hq
    · simp only [Line.introduces, hp, if_false, List.mem_singleton, Bool.false_eq_true] at hq
      subst hq
      exact ⟨fun he => hp (by simp [he]), ht⟩
  | message m =>
    rw [hl] at ht hn
    simp only [Line.introduces, List.mem_cons, List.not_mem_nil, or_false, forall_eq_or_imp,
      forall_eq]
    exact ⟨⟨hn.1, ht.1⟩, hn.2, ht.2.1⟩
  | other => simp [Line.introduces]

/-- The participants of a diagram are the first appearances of their ids, in their order. -/
structure Keeps (seen : List Participant) (diagram : SequenceDiagram) : Prop where
  first : ∀ p, p ∈ diagram.participants ↔ seen.find? (·.id == p.id) = some p
  ordered : diagram.participants.Pairwise fun p q =>
    seen.findIdx (·.id == p.id) < seen.findIdx (·.id == q.id)

theorem find?_concat (seen : List Participant) (p q : Participant) :
    (seen ++ [p]).find? (·.id == q.id) = some q ↔
      seen.find? (·.id == q.id) = some q ∨ seen.find? (·.id == q.id) = none ∧ p = q := by
  rw [List.find?_append, Option.or_eq_some_iff, List.find?_singleton]
  refine or_congr_right (and_congr_right fun _ => ?_)
  by_cases he : p.id = q.id
  · simp [he]
  · simpa [he] using fun h : p = q => he (h ▸ rfl)

theorem findIdx_lt_of_known {id : String} (h : id ∈ seen.map (·.id)) :
    seen.findIdx (·.id == id) < seen.length := by
  obtain ⟨q, hq, rfl⟩ := List.mem_map.1 h
  exact List.findIdx_lt_length_of_exists ⟨q, hq, beq_self_eq_true q.id⟩

theorem findIdx_append_of_known {id : String} (h : id ∈ seen.map (·.id))
    (more : List Participant) :
    (seen ++ more).findIdx (·.id == id) = seen.findIdx (·.id == id) := by
  rw [List.findIdx_append, if_pos (findIdx_lt_of_known h)]

namespace Keeps

theorem isSome_find? (h : Keeps seen diagram) {id : String} :
    (seen.find? (·.id == id)).isSome ↔ id ∈ diagram.participants.map (·.id) := by
  rw [List.mem_map]
  constructor
  · intro hs
    obtain ⟨p, hp⟩ := Option.isSome_iff_exists.1 hs
    obtain rfl : p.id = id := by simpa using List.find?_some hp
    exact ⟨p, (h.first p).2 hp, rfl⟩
  · rintro ⟨p, hp, rfl⟩
    rw [(h.first p).1 hp]
    rfl

theorem known (h : Keeps seen diagram) {p : Participant} (hp : p ∈ diagram.participants) :
    p.id ∈ seen.map (·.id) :=
  List.mem_map.2 ⟨p, List.mem_of_find?_eq_some ((h.first p).1 hp), rfl⟩

theorem ordered_append (h : Keeps seen diagram) (more : List Participant) :
    diagram.participants.Pairwise fun p q =>
      (seen ++ more).findIdx (·.id == p.id) < (seen ++ more).findIdx (·.id == q.id) := by
  refine h.ordered.imp_of_mem ?_
  intro p q hp hq hlt
  rwa [findIdx_append_of_known (h.known hp), findIdx_append_of_known (h.known hq)]

theorem register (h : Keeps seen diagram) {p : Participant} (hn : p.id ≠ "") :
    Keeps (seen ++ [p]) (register diagram p) := by
  by_cases hk : p.id ∈ diagram.participants.map (·.id)
  · rw [register_known hk]
    refine ⟨?_, h.ordered_append [p]⟩
    intro q
    rw [find?_concat, h.first, or_iff_left]
    rintro ⟨hnone, rfl⟩
    have hsome := h.isSome_find?.2 hk
    rw [hnone] at hsome
    cases hsome
  · have hnone : seen.find? (·.id == p.id) = none :=
      Option.not_isSome_iff_eq_none.1 fun hs => hk (h.isSome_find?.1 hs)
    rw [register_new hn hk]
    refine ⟨?_, ?_⟩
    · intro q
      rw [find?_concat, List.mem_append, List.mem_singleton, h.first]
      refine or_congr_right ⟨?_, fun hq => hq.2.symm⟩
      rintro rfl
      exact ⟨hnone, rfl⟩
    · rw [List.pairwise_append]
      refine ⟨h.ordered_append [p], List.pairwise_singleton _ _, ?_⟩
      intro q hq r hr
      have hlt := findIdx_lt_of_known (h.known hq)
      have hnew : seen.findIdx (·.id == p.id) = seen.length :=
        List.findIdx_eq_length.2 (by simpa using hnone)
      rw [List.mem_singleton.1 hr, findIdx_append_of_known (h.known hq), List.findIdx_append,
        if_neg (by omega)]
      omega

theorem foldl_register (h : Keeps seen diagram) {ps : List Participant} (hn : ∀ p ∈ ps, p.id ≠ "") :
    Keeps (seen ++ ps) (ps.foldl Sequence.register diagram) := by
  induction ps generalizing seen diagram with
  | nil => simpa using h
  | cons p ps ih =>
    rw [List.forall_mem_cons] at hn
    rw [List.append_cons]
    exact ih (h.register hn.1) hn.2

end Keeps

/-- A line makes known whom it brings up, and adds its message. -/
theorem add_eq (diagram : SequenceDiagram) (line : Line) : add diagram line =
    { line.introduces.foldl register diagram with
      messages := diagram.messages ++ line.message?.toList } := by
  cases line with
  | declaration p =>
    by_cases hp : p.id.isEmpty = true
    · simp [add, Line.introduces, Line.message?, register, hp]
    · simp only [add, Line.introduces, Line.message?, hp, if_false, List.foldl_cons,
        List.foldl_nil, Option.toList_none, List.append_nil, Bool.false_eq_true]
      rw [← messages_register diagram p]
  | message m => simp [add, Line.introduces, Line.message?]
  | other => simp [add, Line.introduces, Line.message?]

/-- Nobody is left out later, and nobody changes place, label or kind. -/
theorem prefix_foldl_register (diagram : SequenceDiagram) (ps : List Participant) :
    diagram.participants <+: (ps.foldl register diagram).participants := by
  refine List.foldlRecOn (motive := fun d : SequenceDiagram =>
    diagram.participants <+: d.participants) ps _ (List.prefix_refl _) ?_
  intro d hd p _
  unfold register
  split
  · exact hd
  · exact hd.trans (List.prefix_append _ _)

theorem prefix_foldl_add (diagram : SequenceDiagram) (lines : List Line) :
    diagram.participants <+: (lines.foldl add diagram).participants := by
  refine List.foldlRecOn (motive := fun d : SequenceDiagram =>
    diagram.participants <+: d.participants) lines _ (List.prefix_refl _) ?_
  intro d hd line _
  rw [add_eq]
  exact hd.trans (prefix_foldl_register d _)

theorem foldl_add_messages (diagram : SequenceDiagram) (lines : List Line) :
    (lines.foldl add diagram).messages = diagram.messages ++ lines.filterMap Line.message? := by
  induction lines generalizing diagram with
  | nil => simp
  | cons line lines ih =>
    rw [List.foldl_cons, ih, add_eq, List.append_assoc]
    cases hm : line.message? <;> simp [hm]

/-- What lines draw keeps the first of everybody whom they bring up. -/
theorem Keeps.foldl_add (h : Keeps seen diagram) (lines : List (List Char)) :
    Keeps (seen ++ appearances (lines.map Line.ofText))
      ((lines.map Line.ofText).foldl add diagram) := by
  induction lines generalizing seen diagram with
  | nil => simpa [appearances] using h
  | cons line lines ih =>
    have hadd : Keeps (seen ++ (Line.ofText line).introduces) (add diagram (Line.ofText line)) := by
      obtain ⟨hf, ho⟩ := h.foldl_register fun p hp => (introduces_neat line p hp).1
      rw [add_eq]
      exact ⟨hf, ho⟩
    simpa [appearances] using ih hadd

/-- A line that turns out to be no message after all makes nobody known. -/
theorem add_rejected (hp : afterKeyword? "participant".toList line = none)
    (ha : afterKeyword? "actor".toList line = none) (hr : Rejected line)
    (diagram : SequenceDiagram) : add diagram (Line.ofText line) = diagram := by
  rw [Line.ofText_ignored ⟨hp, ha, .inr (message?_eq_none_iff.2 hr)⟩]
  rfl

end Sequence

/-- What a sequence diagram owes to the lines that draw it. -/
structure SequenceDiagram.Drawn (lines : List (List Char)) (diagram : SequenceDiagram) : Prop where
  distinct : (diagram.participants.map (·.id)).Nodup
  named : ∀ p ∈ diagram.participants, p.id ≠ "" ∧ trim p.id.toList = p.id.toList
  joined : diagram.Joined
  /-- The participants are those who are the first to appear under their ids. -/
  first : ∀ p, p ∈ diagram.participants ↔
    (appearances (lines.map Line.ofText)).find? (·.id == p.id) = some p
  ordered : diagram.participants.Pairwise fun p q =>
    (appearances (lines.map Line.ofText)).findIdx (·.id == p.id) <
      (appearances (lines.map Line.ofText)).findIdx (·.id == q.id)
  /-- Those of the lines up to some line are the first ones of all lines. -/
  kept : ∀ before after, lines = before ++ after →
    (SequenceDiagram.ofLines before).participants <+: diagram.participants
  messages : diagram.messages = (lines.map Line.ofText).filterMap Line.message?
  trimmed : ∀ m ∈ diagram.messages, trim m.text.toList = m.text.toList
  /-- A line that is no declaration and turns out to be no message changes nothing. -/
  rejected : ∀ before line after, lines = before ++ line :: after →
    afterKeyword? "participant".toList line = none → afterKeyword? "actor".toList line = none →
    Rejected line → SequenceDiagram.ofLines (before ++ [line]) = SequenceDiagram.ofLines before

theorem SequenceDiagram.drawn_ofLines (lines : List (List Char)) :
    (SequenceDiagram.ofLines lines).Drawn lines := by
  have hempty : Keeps [] {} := ⟨by simp, by simp⟩
  have hkeeps : Keeps (appearances (lines.map Line.ofText)) (SequenceDiagram.ofLines lines) :=
    hempty.foldl_add lines
  have hmessages : (SequenceDiagram.ofLines lines).messages =
      (lines.map Line.ofText).filterMap Line.message? := foldl_add_messages {} _
  refine ⟨?_, ?_, ?_, hkeeps.first, hkeeps.ordered, ?_, hmessages, ?_, ?_⟩
  · rw [List.Nodup, List.pairwise_map]
    refine hkeeps.ordered.imp ?_
    intro p q hlt he
    rw [he] at hlt
    exact Nat.lt_irrefl _ hlt
  · intro p hp
    have hm := List.mem_of_find?_eq_some ((hkeeps.first p).1 hp)
    obtain ⟨line, hl, hi⟩ := List.mem_flatMap.1 hm
    obtain ⟨cs, -, rfl⟩ := List.mem_map.1 hl
    exact introduces_neat cs p hi
  · refine SequenceDiagram.Joined.foldl (by simp [SequenceDiagram.Joined]) ?_
    exact List.forall_mem_map.2 fun cs _ => Line.ofText_named cs
  · rintro before after rfl
    rw [SequenceDiagram.ofLines, SequenceDiagram.ofLines, List.map_append, List.foldl_append]
    exact prefix_foldl_add _ _
  · intro m hm
    rw [hmessages] at hm
    obtain ⟨line, hl, hs⟩ := List.mem_filterMap.1 hm
    obtain ⟨cs, -, rfl⟩ := List.mem_map.1 hl
    have ht := Line.ofText_trimmed cs
    cases hc : Line.ofText cs with
    | message other =>
      rw [hc] at hs ht
      cases hs
      exact ht.2.2
    | declaration p =>
      rw [hc] at hs
      cases hs
    | other =>
      rw [hc] at hs
      cases hs
  · rintro before line after - hp ha hr
    rw [SequenceDiagram.ofLines, List.map_append, List.foldl_append]
    exact add_rejected hp ha hr _

theorem Diagram.ofLines_of_read {text : List Char} {diagram : SequenceDiagram}
    (h : Diagram.read text = .ok (.sequence diagram)) :
    diagram = SequenceDiagram.ofLines (bodyLines text) := by
  obtain ⟨_, header, -, -, he⟩ := Diagram.exists_header h
  cases header with
  | flow direction => cases he
  | sequence =>
    cases he
    rfl

/-- Every sequence diagram that is read is as its lines draw it: it keeps the first appearance of
each participant, in order and for good, and the messages, which are between them. -/
theorem read_sequence_drawn {text : List Char} {diagram : SequenceDiagram}
    (h : Diagram.read text = .ok (.sequence diagram)) : diagram.Drawn (bodyLines text) := by
  rw [Diagram.ofLines_of_read h]
  exact SequenceDiagram.drawn_ofLines _

/-- Participants that are declared, brought up by a message before they are declared, declared
twice, and brought up by lines that are no messages. -/
def entrances : SequenceDiagram where
  participants := [⟨"b", "Bea", true⟩, ⟨"a", "a", false⟩, ⟨"c d", "c d", false⟩]
  messages := [⟨"a", "b", "x: y", ⟨false, .filled⟩, some .activate⟩,
    ⟨"b", "c d", "", ⟨true, .async⟩, none⟩]

def entrancesText : String :=
  "sequenceDiagram\nactor b as \"Bea\"\nloop f ->> g\na ->> + b :  x: y \nparticipant a as Ann\n" ++
    "b -->> -\n->> e: no\nh: a ->> b\nb --) c d\nparticipant b"

theorem entrances_drawn : Diagram.read entrancesText.toList = .ok (.sequence entrances) ∧
    entrances.Drawn (bodyLines entrancesText.toList) := by
  have h : Diagram.read entrancesText.toList = .ok (.sequence entrances) := by decide +kernel
  exact ⟨h, read_sequence_drawn h⟩

end Chartboard
