import Chartboard.Proofs.Diagram.Rows
import Chartboard.Sequence.Lines

namespace Chartboard.Sequence
open Text

variable {cs id sender rest : List Char} {c : Char}

/-- What a participant can be called: a word that runs into no arrow, sign or text and begins no
comment. -/
structure IsName (cs : List Char) : Prop where
  nonempty : cs ≠ []
  solid : ∀ c ∈ cs, isBlank c = false
  plain : ∀ c ∈ cs, c ∉ [':', '-', '+', '>']
  uncommented : startsWith ['%', '%'] cs = false

theorem isName_iff : IsName cs ↔ cs ≠ [] ∧
    (cs.all fun c => !isBlank c && !([':', '-', '+', '>'].contains c)) = true ∧
      startsWith ['%', '%'] cs = false := by
  simp only [List.all_eq_true, Bool.and_eq_true, Bool.not_eq_true', List.contains_eq_mem,
    decide_eq_false_iff_not]
  exact ⟨fun h => ⟨h.nonempty, fun c hc => ⟨h.solid c hc, h.plain c hc⟩, h.uncommented⟩,
    fun h => ⟨h.1, fun c hc => (h.2.1 c hc).1, fun c hc => (h.2.1 c hc).2, h.2.2⟩⟩

instance (cs : List Char) : Decidable (IsName cs) :=
  decidable_of_decidable_of_iff isName_iff.symm

theorem IsName.not_mem (h : IsName cs) (hc : c ∈ [':', '-', '+', '>']) : c ∉ cs :=
  fun hm => h.plain c hm hc

theorem IsName.unbroken (h : IsName cs) : '\n' ∉ cs :=
  fun hm => absurd (h.solid _ hm) (by decide)

theorem IsName.trim (h : IsName cs) : Text.trim cs = cs :=
  trim_eq_self (fun c hc => h.solid c (List.mem_of_mem_head? hc))
    fun c hc => h.solid c (List.mem_of_getLast? hc)

theorem spelling_cons (arrow : Arrow) : ∃ r, arrow.spelling = '-' :: r ∧ ':' ∉ arrow.spelling ∧
    '\n' ∉ arrow.spelling := by
  obtain ⟨dashed, head⟩ := arrow
  cases dashed <;> cases head <;> exact ⟨_, rfl, by decide, by decide⟩

theorem arrowAt?_eq_none (hc : c ≠ '-') (cs : List Char) : arrowAt? (c :: cs) = none := by
  simp [arrowAt?, Arrow.all, Arrow.spelling, after?, hc.symm]

theorem eq_append_of_arrowAt? {arrow : Arrow} (h : arrowAt? cs = some (arrow, rest)) :
    cs = arrow.spelling ++ rest := by
  obtain ⟨other, -, ho⟩ := List.exists_of_findSome?_eq_some h
  obtain ⟨r, hr, he⟩ := Option.map_eq_some_iff.1 ho
  cases he
  exact after?_eq_some_iff.1 hr

/-- Finding an arrow loses the arrow only. -/
theorem eq_append_of_findArrow? {before : List Char} {arrow : Arrow}
    (h : findArrow? cs = some (before, arrow, rest)) : cs = before ++ (arrow.spelling ++ rest) := by
  induction cs generalizing before with
  | nil => cases h
  | cons c cs ih =>
    unfold findArrow? at h
    split at h
    · next ha =>
      cases h
      exact eq_append_of_arrowAt? ha
    · obtain ⟨⟨b, found⟩, hf, he⟩ := Option.map_eq_some_iff.1 h
      cases he
      rw [ih hf, List.cons_append]

theorem prefix_atColon (line : List Char) : (atColon line).1 <+: line := by
  unfold atColon
  cases h : cut [':'] line with
  | none => exact List.prefix_refl _
  | some found =>
    rw [eq_append_of_cut h, List.append_assoc]
    exact List.prefix_append _ _

/-- Only a further head could make another arrow of a spelling. -/
theorem arrowAt?_append (arrow : Arrow) (hr : ∀ c ∈ rest.head?, c ≠ '>') :
    arrowAt? (arrow.spelling ++ rest) = some (arrow, rest) := by
  obtain ⟨dashed, head⟩ := arrow
  cases rest with
  | nil => cases dashed <;> cases head <;> rfl
  | cons c rest =>
    have hc : '>' ≠ c := (hr c rfl).symm
    cases dashed <;> cases head <;> simp [arrowAt?, Arrow.all, Arrow.spelling, after?, hc]

theorem findArrow?_append (arrow : Arrow) (hs : '-' ∉ sender) (hr : ∀ c ∈ rest.head?, c ≠ '>') :
    findArrow? (sender ++ (arrow.spelling ++ rest)) = some (sender, arrow, rest) := by
  induction sender with
  | nil =>
    obtain ⟨r, hsp, -⟩ := spelling_cons arrow
    have ha := arrowAt?_append arrow hr
    rw [hsp] at ha ⊢
    rw [List.nil_append, List.cons_append, findArrow?, ← List.cons_append, ha]
  | cons c sender ih =>
    rw [List.mem_cons, not_or] at hs
    rw [List.cons_append, findArrow?, arrowAt?_eq_none (Ne.symm hs.1), ih hs.2]
    rfl

def signed (activation : Option Activation) (id : List Char) : List Char :=
  (activation.map Activation.sign).toList ++ id

theorem receiver_signed (activation : Option Activation) (h : IsName id) :
    receiver (signed activation id) = (activation, id) := by
  obtain ⟨c, r, rfl⟩ := List.exists_cons_of_ne_nil h.nonempty
  have hs : trimStart (c :: r) = c :: r := trimStart_of_trim h.trim
  have ht : ∀ sign, isBlank sign = false → trim (sign :: c :: r) = sign :: c :: r := by
    intro sign hb
    apply trim_eq_self (by simpa using hb)
    intro d hd
    rw [List.getLast?_cons_cons] at hd
    exact h.solid d (List.mem_of_getLast? hd)
  have hc := h.plain c List.mem_cons_self
  simp only [List.mem_cons, not_or] at hc
  match activation with
  | none => simp [signed, receiver, h.trim, hc]
  | some .activate => simp [signed, Activation.sign, receiver, ht '+' (by decide), hs]
  | some .deactivate => simp [signed, Activation.sign, receiver, ht '-' (by decide), hs]

theorem mem_signed {activation : Option Activation} (h : c ∈ signed activation id) :
    c ∈ ['+', '-'] ∨ c ∈ id := by
  match activation with
  | none => exact .inr h
  | some .activate =>
    rcases List.mem_cons.1 h with rfl | h
    · exact .inl (by decide)
    · exact .inr h
  | some .deactivate =>
    rcases List.mem_cons.1 h with rfl | h
    · exact .inl (by decide)
    · exact .inr h

def route (m : Message) : List Char :=
  m.sender.toList ++ (m.arrow.spelling ++ signed m.activation m.receiver.toList)

theorem route_append (m : Message) (rest : List Char) :
    ∃ more, route m ++ rest = m.sender.toList ++ '-' :: more := by
  obtain ⟨r, hs, -⟩ := spelling_cons m.arrow
  exact ⟨_, by simp [route, hs]; rfl⟩

end Chartboard.Sequence

namespace Chartboard
open Chartboard.Text Chartboard.Sequence

/-- A participant whose alias is one line that quotes can be put around. -/
structure Participant.Printable (p : Participant) : Prop where
  named : IsName p.id.toList
  unbroken : '\n' ∉ p.label.toList
  unopened : p.label.toList.head? ≠ some '"'
  unclosed : p.label.toList.getLast? ≠ some '"'

/-- A message between words, with a text of one line. -/
structure Message.Printable (m : Message) : Prop where
  sender : IsName m.sender.toList
  receiver : IsName m.receiver.toList
  trimmed : trim m.text.toList = m.text.toList
  unbroken : '\n' ∉ m.text.toList

namespace Message.Printable

variable {m : Message} {rest : List Char}

theorem findArrow?_route (h : m.Printable) : findArrow? (route m) =
    some (m.sender.toList, m.arrow, signed m.activation m.receiver.toList) := by
  apply findArrow?_append m.arrow (h.sender.not_mem (by decide))
  rintro c hc rfl
  rcases mem_signed (List.mem_of_mem_head? hc) with hs | hm
  · exact absurd hs (by decide)
  · exact h.receiver.not_mem (by decide) hm

theorem atColon_route (h : m.Printable) (rest : List Char) :
    atColon (route m ++ ':' :: rest) = (route m, rest) := by
  have hn : ':' ∉ route m := by
    obtain ⟨r, -, hsp, -⟩ := spelling_cons m.arrow
    rw [route, List.mem_append, List.mem_append]
    rintro (hm | hm | hm)
    · exact h.sender.not_mem (by decide) hm
    · exact hsp hm
    · rcases mem_signed hm with hs | hm
      · exact absurd hs (by decide)
      · exact h.receiver.not_mem (by decide) hm
  rw [atColon, cut_char hn, Option.getD_some]

/-- The message of a line whose text is trimmed afterwards. -/
theorem message?_route (h : m.Printable) (hr : trim rest = m.text.toList) :
    message? (route m ++ ':' :: rest) = some m := by
  have hs : m.sender.toList.isEmpty = false := List.isEmpty_eq_false_iff.2 h.sender.nonempty
  have ht : m.receiver.toList.isEmpty = false := List.isEmpty_eq_false_iff.2 h.receiver.nonempty
  simp only [message?, h.atColon_route, h.findArrow?_route, receiver_signed _ h.receiver, hs, ht,
    hr, h.sender.trim, Option.bind_eq_bind, Option.bind_some, Bool.or_false, Bool.false_eq_true,
    if_false, String.ofList_toList]

theorem isBlock_route (h : m.Printable) (rest : List Char) :
    isBlock (route m ++ ':' :: rest) = false := by
  have hs : m.sender.toList.any isBlank = false := by
    rw [List.any_eq_false]
    exact fun c hc => Bool.eq_false_iff.1 (h.sender.solid c hc)
  simp [isBlock, h.atColon_route, h.findArrow?_route, h.sender.trim, hs]

/-- A message's line is no declaration, since a dash follows its first word. -/
theorem ofText_route (h : m.Printable) (hr : trim rest = m.text.toList) :
    Line.ofText (route m ++ ':' :: rest) = .message m := by
  obtain ⟨more, hw⟩ := route_append m (':' :: rest)
  have hp : afterKeyword? "participant".toList (route m ++ ':' :: rest) = none := by
    rw [hw]
    exact afterKeyword?_eq_none h.sender.solid (by decide) (by decide) _
  have ha : afterKeyword? "actor".toList (route m ++ ':' :: rest) = none := by
    rw [hw]
    exact afterKeyword?_eq_none h.sender.solid (by decide) (by decide) _
  simp only [Line.ofText, hp, ha, h.isBlock_route, h.message?_route hr, Bool.false_eq_true,
    if_false]

theorem head_route (h : m.Printable) (rest : List Char) :
    ∀ c ∈ (route m ++ rest).head?, isBlank c = false := by
  obtain ⟨d, r, hd⟩ := List.exists_cons_of_ne_nil h.sender.nonempty
  intro c hc
  refine h.sender.solid c (List.mem_of_mem_head? (?_ : c ∈ m.sender.toList.head?))
  simpa [route, hd] using hc

/-- Trimming takes the last blank from the line of a message without a text, and nothing else. -/
theorem exists_trim_line (h : m.Printable) :
    ∃ rest, trim m.line = route m ++ ':' :: rest ∧ trim rest = m.text.toList := by
  have hl : m.line = route m ++ ':' :: ' ' :: m.text.toList := by
    simp [Message.line, route, signed]
  cases ht : m.text.toList with
  | nil =>
    refine ⟨[], ?_, rfl⟩
    rw [hl, ht, List.append_cons, trim_append_blank (by decide)]
    apply trim_eq_self (h.head_route [':'])
    intro c hc
    rw [List.getLast?_concat] at hc
    cases hc
    decide
  | cons c r =>
    refine ⟨' ' :: c :: r, ?_, ?_⟩
    · rw [hl, ht]
      refine trim_eq_self (h.head_route _) fun d hd => last_of_trim h.trimmed d ?_
      rw [ht]
      simpa using hd
    · rw [trim_cons_blank (by decide), ← ht, h.trimmed]

theorem ofText (h : m.Printable) : Line.ofText (trim m.line) = .message m := by
  obtain ⟨rest, he, hr⟩ := h.exists_trim_line
  rw [he, h.ofText_route hr]

theorem isSaid (h : m.Printable) : Says m.line := by
  obtain ⟨rest, he, -⟩ := h.exists_trim_line
  obtain ⟨more, hw⟩ := route_append m (':' :: rest)
  have hb : '-' ∉ ['%', '%'] := by decide
  rw [Says, he, hw]
  refine ⟨by simp, startsWith_eq_false_iff.2 ?_⟩
  intro hp
  exact startsWith_eq_false_iff.1 h.sender.uncommented (prefix_of_barrier hb _ _ hp)

theorem newline_not_mem (h : m.Printable) : '\n' ∉ m.line := by
  obtain ⟨r, -, -, hsp⟩ := spelling_cons m.arrow
  have hs : '\n' ∉ signed m.activation m.receiver.toList := by
    intro hm
    exact (mem_signed hm).elim (by decide) h.receiver.unbroken
  have hl : m.line = route m ++ ':' :: ' ' :: m.text.toList := by
    simp [Message.line, route, signed]
  simp [hl, route, h.sender.unbroken, hsp, hs, h.unbroken]

end Message.Printable

def Participant.keyword (p : Participant) : List Char :=
  if p.actor then "actor".toList else "participant".toList

theorem Participant.declaration_eq (p : Participant) : p.declaration = p.keyword ++
    ' ' :: (p.id.toList ++ (" as ".toList ++ '"' :: (p.label.toList ++ ['"']))) := by
  unfold Participant.declaration Participant.keyword
  cases p.actor <;> simp

namespace Participant.Printable

variable {p : Participant}

/-- The quotes around an alias are taken off, and no more than these. -/
theorem declared_alias (h : p.Printable) : declared p.actor
    (p.id.toList ++ (" as ".toList ++ '"' :: (p.label.toList ++ ['"']))) = p := by
  have hs : ' ' ∉ p.id.toList := fun hm => absurd (h.named.solid _ hm) (by decide)
  have hc : cut " as ".toList (p.id.toList ++ (" as ".toList ++ '"' :: (p.label.toList ++ ['"']))) =
      some (p.id.toList, '"' :: (p.label.toList ++ ['"'])) :=
    cut_cons_append hs _
  have ht : trim ('"' :: (p.label.toList ++ ['"'])) = '"' :: (p.label.toList ++ ['"']) := by
    apply trim_eq_self
    · intro c hc
      cases hc
      decide
    · intro c hc
      rw [← List.cons_append, List.getLast?_concat] at hc
      cases hc
      decide
  have hd : dropEndWhile (fun c => c == '"')
      (('"' :: (p.label.toList ++ ['"'])).dropWhile fun c => c == '"') = p.label.toList := by
    cases hl : p.label.toList with
    | nil => rfl
    | cons c r =>
      have hc : (c == '"') = false :=
        beq_eq_false_iff_ne.2 fun he => h.unopened (by rw [hl, he]; rfl)
      have hq : dropEndWhile (fun c => c == '"') (c :: r ++ ['"']) = c :: r := by
        rw [dropEndWhile_concat (by decide)]
        apply dropEndWhile_eq_self
        intro d hd
        apply beq_eq_false_iff_ne.2
        rintro rfl
        exact h.unclosed (hl ▸ hd)
      simpa [hc] using hq
  simp only [declared, hc, ht, hd, h.named.trim, String.ofList_toList]

theorem afterKeyword?_declaration (h : p.Printable) :
    afterKeyword? p.keyword p.declaration =
      some (p.id.toList ++ (" as ".toList ++ '"' :: (p.label.toList ++ ['"']))) := by
  obtain ⟨c, r, hi⟩ := List.exists_cons_of_ne_nil h.named.nonempty
  have hc : isBlank c = false := h.named.solid c (by simp [hi])
  rw [p.declaration_eq, afterKeyword?_append _ (by decide), trim_eq_self]
  · simpa [hi] using hc
  · simp only [← List.cons_append, ← List.append_assoc, List.getLast?_concat]
    rintro d ⟨⟩
    decide

theorem ofText (h : p.Printable) : Line.ofText p.declaration = .declaration p := by
  have hk := h.afterKeyword?_declaration
  have hd := h.declared_alias
  unfold Participant.keyword at hk
  cases ha : p.actor with
  | true =>
    have hn : afterKeyword? "participant".toList p.declaration = none := by
      refine afterKeyword?_of_mem (c := 'o') ?_ (by decide)
      rw [p.declaration_eq, Participant.keyword, if_pos ha, List.take_append, List.mem_append]
      exact .inl (by decide)
    rw [ha] at hk hd
    rw [if_pos rfl] at hk
    simp only [Line.ofText, hn, hk, hd]
  | false =>
    rw [ha] at hk hd
    rw [if_neg Bool.false_ne_true] at hk
    simp only [Line.ofText, hk, hd]

theorem verbatim (h : p.Printable) : Verbatim p.declaration := by
  have hk : ∃ c r, p.keyword = c :: r ∧ isBlank c = false ∧ c ≠ '%' ∧ '\n' ∉ p.keyword := by
    unfold Participant.keyword
    cases p.actor
    · exact ⟨'p', _, rfl, by decide, by decide, by decide⟩
    · exact ⟨'a', _, rfl, by decide, by decide, by decide⟩
  obtain ⟨c, r, hk, hb, hc, hn⟩ := hk
  refine ⟨⟨c, ?_, hb, hc⟩, ?_, ?_⟩
  · simp [p.declaration_eq, hk]
  · intro d hd
    rw [Participant.declaration, List.getLast?_concat] at hd
    cases hd
    decide
  · simp [p.declaration_eq, hn, h.named.unbroken, h.unbroken]

end Participant.Printable

/-- A diagram that its printed lines describe: an id names one participant, and the messages join
these. -/
structure SequenceDiagram.Printable (diagram : SequenceDiagram) : Prop where
  participants : ∀ p ∈ diagram.participants, p.Printable
  distinct : (diagram.participants.map (·.id)).Nodup
  joined : ∀ m ∈ diagram.messages,
    m.sender ∈ diagram.participants.map (·.id) ∧ m.receiver ∈ diagram.participants.map (·.id)
  trimmed : ∀ m ∈ diagram.messages, trim m.text.toList = m.text.toList
  unbroken : ∀ m ∈ diagram.messages, '\n' ∉ m.text.toList

namespace Sequence

variable {diagram : SequenceDiagram}

theorem register_new {p : Participant} (hn : p.id ≠ "")
    (hf : p.id ∉ diagram.participants.map (·.id)) : register diagram p =
      { diagram with participants := diagram.participants ++ [p] } := by
  have hany : diagram.participants.any (·.id == p.id) = false := by
    rw [List.any_eq_false]
    intro q hq he
    exact hf (List.mem_map.2 ⟨q, hq, by simpa using he⟩)
  simp [register, hn, hany]

theorem register_known {p : Participant} (hk : p.id ∈ diagram.participants.map (·.id)) :
    register diagram p = diagram := by
  have hany : diagram.participants.any (·.id == p.id) = true := by
    obtain ⟨q, hq, he⟩ := List.mem_map.1 hk
    exact List.any_eq_true.2 ⟨q, hq, beq_iff_eq.2 he⟩
  simp [register, hany]

theorem foldl_declarations (diagram : SequenceDiagram) {ps : List Participant}
    (hn : ∀ p ∈ ps, p.id ≠ "") (hd : ((diagram.participants ++ ps).map (·.id)).Nodup) :
    (ps.map Line.declaration).foldl add diagram =
      { diagram with participants := diagram.participants ++ ps } := by
  induction ps generalizing diagram with
  | nil => simp
  | cons p ps ih =>
    have hf : p.id ∉ diagram.participants.map (·.id) := by
      intro hm
      rw [List.map_append, List.nodup_append] at hd
      exact hd.2.2 _ hm _ (by simp) rfl
    rw [List.forall_mem_cons] at hn
    have hr := ih { diagram with participants := diagram.participants ++ [p] } hn.2
      (by simpa using hd)
    rw [List.map_cons, List.foldl_cons, add, register_new hn.1 hf, hr, List.append_assoc]
    rfl

theorem foldl_messages (diagram : SequenceDiagram) {ms : List Message} (hj : ∀ m ∈ ms,
    m.sender ∈ diagram.participants.map (·.id) ∧ m.receiver ∈ diagram.participants.map (·.id)) :
    (ms.map Line.message).foldl add diagram =
      { diagram with messages := diagram.messages ++ ms } := by
  induction ms generalizing diagram with
  | nil => simp
  | cons m ms ih =>
    rw [List.forall_mem_cons] at hj
    have hr := ih { diagram with messages := diagram.messages ++ [m] } hj.2
    have hs : register diagram (undeclared m.sender) = diagram := register_known hj.1.1
    have ht : register diagram (undeclared m.receiver) = diagram := register_known hj.1.2
    rw [List.map_cons, List.foldl_cons, add, hs, ht, hr, List.append_assoc]
    rfl

end Sequence

namespace SequenceDiagram

variable {diagram : SequenceDiagram}

def body (diagram : SequenceDiagram) : List (List Char) :=
  diagram.participants.map Participant.declaration ++ diagram.messages.map Message.line

theorem Printable.message (h : diagram.Printable) {m : Message} (hm : m ∈ diagram.messages) :
    m.Printable := by
  have hnamed : ∀ id ∈ diagram.participants.map (·.id), IsName id.toList := by
    intro id hid
    obtain ⟨p, hp, rfl⟩ := List.mem_map.1 hid
    exact (h.participants p hp).named
  obtain ⟨hs, hr⟩ := h.joined m hm
  exact ⟨hnamed _ hs, hnamed _ hr, h.trimmed m hm, h.unbroken m hm⟩

theorem Printable.map_body (h : diagram.Printable) : (diagram.body.map trim).map Line.ofText =
    diagram.participants.map Line.declaration ++ diagram.messages.map Line.message := by
  have hp : ((diagram.participants.map Participant.declaration).map trim).map Line.ofText =
      diagram.participants.map Line.declaration := by
    rw [List.map_map, List.map_map]
    apply List.map_congr_left
    intro p hp
    rw [Function.comp_apply, Function.comp_apply, (h.participants p hp).verbatim.trim,
      (h.participants p hp).ofText]
  have hm : ((diagram.messages.map Message.line).map trim).map Line.ofText =
      diagram.messages.map Line.message := by
    rw [List.map_map, List.map_map]
    apply List.map_congr_left
    intro m hm
    rw [Function.comp_apply, Function.comp_apply, (h.message hm).ofText]
  rw [body, List.map_append, List.map_append, hp, hm]

theorem Printable.ofLines (h : diagram.Printable) :
    SequenceDiagram.ofLines (diagram.body.map trim) = diagram := by
  have hn : ∀ p ∈ diagram.participants, p.id ≠ "" := by
    intro p hp he
    exact (h.participants p hp).named.nonempty (String.toList_eq_nil_iff.2 he)
  have hp := foldl_declarations {} hn (by simpa using h.distinct)
  have hm := foldl_messages { participants := diagram.participants } h.joined
  rw [SequenceDiagram.ofLines, h.map_body, List.foldl_append, hp]
  exact hm

theorem Printable.isSaid (h : diagram.Printable) : ∀ row ∈ diagram.body, Says row ∧ '\n' ∉ row := by
  intro row hr
  rcases List.mem_append.1 hr with hr | hr
  · obtain ⟨p, hp, rfl⟩ := List.mem_map.1 hr
    have hv := (h.participants p hp).verbatim
    exact ⟨hv.isSaid, hv.unbroken⟩
  · obtain ⟨m, hm, rfl⟩ := List.mem_map.1 hr
    exact ⟨(h.message hm).isSaid, (h.message hm).newline_not_mem⟩

end SequenceDiagram

/-- A printed sequence diagram is read back as it was. -/
theorem read_rendered_sequence (diagram : SequenceDiagram) (h : diagram.Printable)
    (hl : WithinLimits diagram.render) : Diagram.read diagram.render = .ok (.sequence diagram) := by
  have hr : diagram.renderedLines = "sequenceDiagram".toList :: diagram.body := rfl
  have hv : Verbatim "sequenceDiagram".toList := by decide
  have hh : Header.read? (trim "sequenceDiagram".toList) = some .sequence := by
    rw [hv.trim]
    rfl
  have hb : ∀ row ∈ "sequenceDiagram".toList :: diagram.body, Says row ∧ '\n' ∉ row :=
    List.forall_mem_cons.2 ⟨⟨hv.isSaid, hv.unbroken⟩, h.isSaid⟩
  rw [SequenceDiagram.render, hr] at hl ⊢
  rw [Diagram.read_rows hl (fun row hm => (hb row hm).2) (fun row hm => (hb row hm).1) hh,
    Diagram.ofLines, h.ofLines]

/-- Names that are keywords elsewhere, and messages with signs, with an arrow for a text and without
a text. -/
def keywords : SequenceDiagram where
  participants := [⟨"note", "a \"b\" c", false⟩, ⟨"actor", "", true⟩]
  messages := [⟨"note", "actor", "x -->> y: z", ⟨true, .hollow⟩, some .deactivate⟩,
    ⟨"actor", "note", "", ⟨false, .cross⟩, none⟩]

theorem keywords_printable : keywords.Printable := by
  refine ⟨?_, by decide, by decide, by decide, by decide⟩
  simp only [keywords, List.forall_mem_cons]
  refine ⟨?_, ?_, by simp⟩ <;>
    exact ⟨by decide, by decide, by decide, by decide⟩

theorem read_rendered_keywords : Diagram.read keywords.render = .ok (.sequence keywords) :=
  read_rendered_sequence keywords keywords_printable
    ⟨by decide +kernel, by decide +kernel, by decide +kernel⟩

end Chartboard
