import Chartboard.Proofs.Sequence.Participants

namespace Chartboard.Sequence
open Text

variable {sender left right target text : List Char} {arrow : Arrow}

/-- The line of a message with some text on either side of its arrow. -/
def spaced (sender left : List Char) (arrow : Arrow) (right target text : List Char) : List Char :=
  sender ++ left ++ (arrow.spelling ++ (right ++ target)) ++ ':' :: text

/-- The words that open a declaration. -/
def isDeclaring (word : List Char) : Bool :=
  sameLetters word "participant".toList || sameLetters word "actor".toList

theorem not_mem_of_blank {c : Char} (h : ∀ d ∈ left, isBlank d = true) (hc : isBlank c = false) :
    c ∉ left := by
  intro hm
  rw [h c hm] at hc
  cases hc

/-- Trimming the line of a message trims the end of its text. -/
theorem trim_spaced (hs : IsName sender) (left : List Char) (arrow : Arrow)
    (right target text : List Char) : trim (spaced sender left arrow right target text) =
      spaced sender left arrow right target (trimEnd text) := by
  have hhead : ∀ c ∈ (sender ++ left ++ (arrow.spelling ++ (right ++ target))).head?,
      isBlank c = false := by
    obtain ⟨d, r, rfl⟩ := List.exists_cons_of_ne_nil hs.nonempty
    rintro c ⟨⟩
    exact hs.solid d List.mem_cons_self
  rw [spaced, trim_append_cons (by decide), trimStart_eq_self hhead]
  rfl

theorem atColon_spaced (hs : IsName sender) (ht : IsName target) (arrow : Arrow)
    (hl : ∀ c ∈ left, isBlank c = true) (hr : ∀ c ∈ right, isBlank c = true) (text : List Char) :
    atColon (spaced sender left arrow right target text) =
      (sender ++ left ++ (arrow.spelling ++ (right ++ target)), text) := by
  obtain ⟨_, -, hspelling, -⟩ := spelling_cons arrow
  have hn : ':' ∉ sender ++ left ++ (arrow.spelling ++ (right ++ target)) := by
    simp only [List.mem_append, not_or]
    exact ⟨⟨hs.not_mem (by decide), not_mem_of_blank hl (by decide)⟩, hspelling,
      not_mem_of_blank hr (by decide), ht.not_mem (by decide)⟩
  rw [atColon, spaced, cut_char hn, Option.getD_some]

theorem findArrow?_spaced (hs : IsName sender) (ht : IsName target) (arrow : Arrow)
    (hl : ∀ c ∈ left, isBlank c = true) (hr : ∀ c ∈ right, isBlank c = true) :
    findArrow? (sender ++ left ++ (arrow.spelling ++ (right ++ target))) =
      some (sender ++ left, arrow, right ++ target) := by
  have hdash : '-' ∉ sender ++ left := by
    rw [List.mem_append, not_or]
    exact ⟨hs.not_mem (by decide), not_mem_of_blank hl (by decide)⟩
  refine findArrow?_append arrow hdash ?_
  rintro c hc rfl
  rcases List.mem_append.1 (List.mem_of_mem_head? hc) with hm | hm
  · exact not_mem_of_blank hr (by decide) hm
  · exact ht.not_mem (by decide) hm

theorem receiver_spaced (ht : IsName target) (hr : ∀ c ∈ right, isBlank c = true) :
    receiver (right ++ target) = (none, target) := by
  have h : receiver target = (none, target) := receiver_signed none ht
  unfold receiver at h ⊢
  rwa [trim_append_of_blank hr]

theorem trim_sender (hs : IsName sender) (hl : ∀ c ∈ left, isBlank c = true) :
    trim (sender ++ left) = sender := by
  have h : trim ([] ++ sender ++ left) = trim sender := trim_pad (by simp) hl
  rwa [List.nil_append, hs.trim] at h

theorem message?_spaced (hs : IsName sender) (ht : IsName target) (arrow : Arrow)
    (hl : ∀ c ∈ left, isBlank c = true) (hr : ∀ c ∈ right, isBlank c = true) (text : List Char) :
    message? (spaced sender left arrow right target text) = some
      ⟨String.ofList sender, String.ofList target, String.ofList (trim text), arrow, none⟩ := by
  simp only [message?, atColon_spaced hs ht arrow hl hr, findArrow?_spaced hs ht arrow hl hr,
    receiver_spaced ht hr, trim_sender hs hl, List.isEmpty_eq_false_iff.2 hs.nonempty,
    List.isEmpty_eq_false_iff.2 ht.nonempty, Option.bind_eq_bind, Option.bind_some, Bool.or_false,
    Bool.false_eq_true, if_false]

theorem isBlock_spaced (hs : IsName sender) (ht : IsName target) (arrow : Arrow)
    (hl : ∀ c ∈ left, isBlank c = true) (hr : ∀ c ∈ right, isBlank c = true) (text : List Char) :
    isBlock (spaced sender left arrow right target text) = false := by
  have hsolid : sender.any isBlank = false :=
    List.any_eq_false.2 fun c hc => Bool.eq_false_iff.1 (hs.solid c hc)
  simp only [isBlock, atColon_spaced hs ht arrow hl hr, findArrow?_spaced hs ht arrow hl hr,
    Option.any_some, trim_sender hs hl, hsolid, Bool.not_false, Bool.not_true, Bool.and_false]

/-- A word that a blank or the end of the line sets off is compared with a keyword as a whole. -/
theorem afterKeyword?_set_off {word keyword rest : List Char}
    (hw : ∀ c ∈ word, isBlank c = false) (hk : (keyword.map Char.toLower).any isBlank = false)
    (hr : ∀ c ∈ rest.head?, isBlank c = true) : afterKeyword? keyword (word ++ rest) =
      if sameLetters word keyword then some (trim rest) else none := by
  have hno : ∀ c ∈ rest.head?, c.toLower ∉ keyword.map Char.toLower := by
    intro c hc hm
    rw [isBlank_toLower (hr c hc)] at hm
    exact List.any_eq_false.1 hk c hm (hr c hc)
  have hall : rest.head?.all isBlank = true := by
    cases rest with
    | nil => rfl
    | cons c rest => exact hr c rfl
  rw [afterKeyword?_solid hw hno, hall, Bool.and_true]

/-- A sender is taken for a keyword only if a blank sets it off from the arrow. -/
theorem afterKeyword?_spaced (keyword : List Char) (hs : IsName sender) (arrow : Arrow)
    (hl : ∀ c ∈ left, isBlank c = true) (hdash : '-' ∉ keyword.map Char.toLower)
    (hk : (keyword.map Char.toLower).any isBlank = false) (right target text : List Char) :
    (afterKeyword? keyword (spaced sender left arrow right target text)).isSome =
      (sameLetters sender keyword && !left.isEmpty) := by
  obtain ⟨r, hspelling, -⟩ := spelling_cons arrow
  rw [spaced, List.append_assoc, List.append_assoc]
  cases left with
  | nil =>
    have hnone := afterKeyword?_eq_none hs.solid (c := '-') (by decide) hdash
      (r ++ (right ++ target) ++ ':' :: text)
    rw [List.nil_append, hspelling, List.cons_append, List.cons_append, hnone]
    simp
  | cons blank left =>
    rw [List.cons_append, afterKeyword?_set_off hs.solid hk]
    · cases hsame : sameLetters sender keyword <;> simp
    · rintro c ⟨⟩
      exact hl blank List.mem_cons_self

/-- The line is a message, whatever the sender is called, unless it is set off and declares. -/
theorem Line.ofText_spaced (hs : IsName sender) (ht : IsName target) (arrow : Arrow)
    (hl : ∀ c ∈ left, isBlank c = true) (hr : ∀ c ∈ right, isBlank c = true)
    (hd : left = [] ∨ isDeclaring sender = false) (text : List Char) :
    Line.ofText (spaced sender left arrow right target text) = .message
      ⟨String.ofList sender, String.ofList target, String.ofList (trim text), arrow, none⟩ := by
  have hkeyword : ∀ keyword : List Char, '-' ∉ keyword.map Char.toLower →
      (keyword.map Char.toLower).any isBlank = false →
      (isDeclaring sender = false → sameLetters sender keyword = false) →
      afterKeyword? keyword (spaced sender left arrow right target text) = none := by
    intro keyword hdash hblank hsame
    rw [← Option.isNone_iff_eq_none, ← Option.not_isSome, Bool.not_eq_true',
      afterKeyword?_spaced keyword hs arrow hl hdash hblank]
    rcases hd with rfl | hd
    · simp
    · rw [hsame hd, Bool.false_and]
  have hp := hkeyword "participant".toList (by decide) (by decide) fun h =>
    (Bool.or_eq_false_iff.1 h).1
  have ha := hkeyword "actor".toList (by decide) (by decide) fun h => (Bool.or_eq_false_iff.1 h).2
  simp only [Line.ofText, hp, ha, isBlock_spaced hs ht arrow hl hr,
    message?_spaced hs ht arrow hl hr, Bool.false_eq_true, if_false]

theorem not_blank_of_sameLetters {word keyword : List Char} (h : sameLetters word keyword = true)
    (hk : (keyword.map Char.toLower).any isBlank = false) : ∀ c ∈ word, isBlank c = false := by
  intro c hc
  rw [← Bool.not_eq_true]
  intro hb
  have hm : c ∈ keyword.map Char.toLower := by
    rw [← beq_iff_eq.1 h, ← isBlank_toLower hb]
    exact List.mem_map_of_mem hc
  exact List.any_eq_false.1 hk c hm hb

/-- A line that is trimmed keeps its first word, and behind it a blank or nothing. -/
theorem trim_set_off {word : List Char} {blank : Char} (hw : ∀ c ∈ word, isBlank c = false)
    (hne : word ≠ []) (hb : isBlank blank = true) (rest : List Char) :
    trim (word ++ blank :: rest) = word ++ trimEnd (blank :: rest) ∧
      ∀ c ∈ (trimEnd (blank :: rest)).head?, isBlank c = true := by
  have hhead : ∀ c ∈ (word ++ blank :: rest).head?, isBlank c = false := by
    intro c hc
    rw [List.head?_append_of_ne_nil word hne] at hc
    exact hw c (List.mem_of_mem_head? hc)
  have hlast : ∀ c ∈ word.getLast?, isBlank c = false :=
    fun c hc => hw c (List.mem_of_mem_getLast? hc)
  refine ⟨by rw [trim, trimStart_eq_self hhead, trimEnd_append_of_last hlast], fun c hc => ?_⟩
  obtain ⟨front, hfront⟩ := trimEnd_prefix (blank :: rest)
  obtain ⟨more, hmore⟩ := List.head?_eq_some_iff.1 hc
  rw [hmore] at hfront
  cases hfront
  exact hb

/-- A line that opens with a declaring word and a blank declares what follows, whatever that is. -/
theorem Line.ofText_declaring {word : List Char} {blank : Char} (hd : isDeclaring word = true)
    (hb : isBlank blank = true) (rest : List Char) :
    Line.ofText (trim (word ++ blank :: rest)) =
      .declaration (declared (sameLetters word "actor".toList) (trim rest)) := by
  have hp : ("participant".toList.map Char.toLower).any isBlank = false := by decide
  have ha : ("actor".toList.map Char.toLower).any isBlank = false := by decide
  have hw : ∀ c ∈ word, isBlank c = false := by
    rcases Bool.or_eq_true_iff.1 hd with h | h
    · exact not_blank_of_sameLetters h hp
    · exact not_blank_of_sameLetters h ha
  have hne : word ≠ [] := by
    rintro rfl
    exact absurd hd (by decide)
  obtain ⟨hline, hset⟩ := trim_set_off hw hne hb rest
  have htrim : trim (trimEnd (blank :: rest)) = trim rest := by
    rw [trim_trimEnd, trim_cons_blank hb]
  rw [hline]
  simp only [Line.ofText, afterKeyword?_set_off hw hp hset, afterKeyword?_set_off hw ha hset]
  by_cases hactor : sameLetters word "actor".toList = true
  · have hother : sameLetters word "participant".toList = false := by
      rw [sameLetters, beq_iff_eq.1 hactor]
      decide
    rw [hother, hactor, htrim]
    rfl
  · rw [Bool.not_eq_true] at hactor
    rw [isDeclaring, hactor, Bool.or_false] at hd
    rw [hd, hactor, htrim]
    rfl

/-- Without blanks around its arrow the line of a message makes its sender and its receiver known,
in this order, and adds the message. With blanks it has the same effect on every diagram exactly if
the sender is none of the words that open a declaration. Such a word with a blank behind it declares
the rest of its line. -/
theorem blanks_around_arrows_iff (hs : IsName sender) (ht : IsName target) (arrow : Arrow)
    (hl : ∀ c ∈ left, isBlank c = true) (hne : left ≠ []) (hr : ∀ c ∈ right, isBlank c = true)
    (text : List Char) :
    (∀ diagram, add diagram (Line.ofText (trim (spaced sender [] arrow [] target text))) =
      { register (register diagram (undeclared (String.ofList sender)))
          (undeclared (String.ofList target)) with
        messages := diagram.messages ++ [⟨String.ofList sender, String.ofList target,
          String.ofList (trim text), arrow, none⟩] }) ∧
    ((∀ diagram, add diagram (Line.ofText (trim (spaced sender left arrow right target text))) =
        add diagram (Line.ofText (trim (spaced sender [] arrow [] target text)))) ↔
      isDeclaring sender = false) ∧
    ∀ {word : List Char} {blank : Char}, isDeclaring word = true → isBlank blank = true →
      ∀ rest, Line.ofText (trim (word ++ blank :: rest)) =
        .declaration (declared (sameLetters word "actor".toList) (trim rest)) := by
  have htight : Line.ofText (trim (spaced sender [] arrow [] target text)) = .message
      ⟨String.ofList sender, String.ofList target, String.ofList (trim text), arrow, none⟩ := by
    rw [trim_spaced hs, Line.ofText_spaced hs ht arrow (by simp) (by simp) (.inl rfl), trim_trimEnd]
  rw [htight]
  refine ⟨fun diagram => ?_, ⟨?_, ?_⟩, Line.ofText_declaring⟩
  · simp only [add, messages_register]
  · intro hall
    by_contra hd
    rw [Bool.not_eq_false] at hd
    obtain ⟨blank, more, rfl⟩ := List.exists_cons_of_ne_nil hne
    have hline : spaced sender (blank :: more) arrow right target text =
        sender ++ blank :: (more ++ (arrow.spelling ++ (right ++ target)) ++ ':' :: text) := by
      simp [spaced]
    have hempty := congrArg SequenceDiagram.messages (hall {})
    rw [hline, Line.ofText_declaring hd (hl blank List.mem_cons_self)] at hempty
    simp [add] at hempty
  · intro hd diagram
    rw [trim_spaced hs, Line.ofText_spaced hs ht arrow hl hr (.inr hd), trim_trimEnd]

/-- A sender that is named like a note or a block. -/
theorem blanks_around_arrow_of_title : isDeclaring "tiTLE".toList = false ∧ ∀ diagram,
    add diagram (Line.ofText (trim "tiTLE \t-->>  end: note: ->> x ".toList)) =
      add diagram (Line.ofText (trim "tiTLE-->>end: note: ->> x ".toList)) := by
  have hs : IsName "tiTLE".toList := by decide
  have ht : IsName "end".toList := by decide
  have hd : isDeclaring "tiTLE".toList = false := by decide
  have hl : ∀ c ∈ " \t".toList, isBlank c = true := List.all_eq_true.1 (by decide)
  have hr : ∀ c ∈ "  ".toList, isBlank c = true := List.all_eq_true.1 (by decide)
  exact ⟨hd, (blanks_around_arrows_iff hs ht ⟨true, .filled⟩ hl (by decide) hr
    " note: ->> x ".toList).2.1.2 hd⟩

/-- A sender that is named like the declaration of an actor. -/
theorem blanks_around_arrow_of_actor : IsName "Actor".toList ∧ IsName "b".toList ∧
    add {} (Line.ofText (trim "Actor ->> b: hi".toList)) =
      { participants := [⟨"->> b: hi", "->> b: hi", true⟩] } ∧
    add {} (Line.ofText (trim "Actor ->> b: hi".toList)) ≠
      add {} (Line.ofText (trim "Actor->>b: hi".toList)) := by
  decide +kernel

end Chartboard.Sequence
