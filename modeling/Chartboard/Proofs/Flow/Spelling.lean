import Chartboard.Flow.Printer
import Chartboard.Proofs.Text.Cutting
import Chartboard.Proofs.Text.Trimming

namespace Chartboard.Flow
open Text

/-- The blanks are the characters with these numbers. -/
def blankNumbers : List Nat :=
  List.range' 9 5 ++ [0x20, 0x85, 0xA0, 0x1680] ++ List.range' 0x2000 11 ++
    [0x2028, 0x2029, 0x202F, 0x205F, 0x3000]

theorem mem_blankNumbers {c : Char} (h : isBlank c = true) : c.toNat ∈ blankNumbers := by
  simp only [isBlank, Bool.or_eq_true, Bool.and_eq_true, decide_eq_true_eq, beq_iff_eq] at h
  simp only [blankNumbers, List.mem_append, List.mem_range'_1, List.mem_cons, List.not_mem_nil]
  omega

theorem not_wordChar_of_blank {c : Char} (h : isBlank c = true) : isWordChar c = false := by
  have hr : ∀ n ∈ blankNumbers, (inRanges n alphanumericRanges || n == '_'.toNat) = false := by
    decide +kernel
  have := hr _ (mem_blankNumbers h)
  simp only [Bool.or_eq_false_iff, beq_eq_false_iff_ne] at this
  simp only [isWordChar, isAlphanumeric, this.1, Bool.false_or, beq_eq_false_iff_ne]
  exact fun he => this.2 (he ▸ rfl)

variable {cs id rest : List Char} {label : String}

/-- What a node can be called. -/
structure IsWord (cs : List Char) : Prop where
  nonempty : cs ≠ []
  chars : ∀ c ∈ cs, isWordChar c = true

theorem isWord_iff : IsWord cs ↔ cs ≠ [] ∧ cs.all isWordChar = true := by
  rw [List.all_eq_true]
  exact ⟨fun h => ⟨h.nonempty, h.chars⟩, fun h => ⟨h.1, h.2⟩⟩

instance (cs : List Char) : Decidable (IsWord cs) :=
  decidable_of_decidable_of_iff isWord_iff.symm

theorem IsWord.not_blank (h : IsWord cs) : ∀ c ∈ cs, isBlank c = false := by
  intro c hc
  cases hb : isBlank c with
  | false => rfl
  | true => rw [← h.chars c hc, not_wordChar_of_blank hb]

theorem IsWord.head {id : List Char} (h : IsWord id) (rest : List Char) :
    ∀ c ∈ (id ++ rest).head?, isBlank c = false := by
  obtain ⟨c, r, rfl⟩ := List.exists_cons_of_ne_nil h.nonempty
  rintro d ⟨⟩
  exact h.not_blank c List.mem_cons_self

theorem IsWord.span (h : IsWord id) (rest : List Char)
    (hr : ∀ c ∈ rest.head?, isWordChar c = false) :
    (id ++ rest).takeWhile isWordChar = id ∧ (id ++ rest).dropWhile isWordChar = rest := by
  rw [List.takeWhile_append_of_pos h.chars, List.dropWhile_append_of_pos h.chars]
  cases rest with
  | nil => simp
  | cons c r => simp [hr c (by simp)]

/-- A word that no bracket follows is a mention of a node and no more. -/
theorem Mention.read?_bare (h : IsWord id) (rest : List Char)
    (hr : ∀ c ∈ rest.head?, isWordChar c = false)
    (hb : brackets.any (fun b => startsWith b.opener rest) = false) :
    Mention.read? (id ++ rest) = some (⟨String.ofList id, none⟩, rest) := by
  obtain ⟨ht, hd⟩ := h.span rest hr
  simp [Mention.read?, ht, hd, hb, h.nonempty]

theorem unquote_quoted (s : String) : unquote (quoted s) = s.toList := by
  simp [quoted, unquote]

theorem trim_quoted (s : String) : trim (quoted s) = quoted s := by
  apply trim_eq_self
  · intro c hc
    obtain rfl : '"' = c := by simpa [quoted] using hc
    decide
  · intro c hc
    rw [quoted, List.getLast?_concat] at hc
    cases hc
    decide

/-- A bracket pair reads the quoted label that it stands around. -/
theorem Bracket.read?_quoted (b : Bracket) (hq : '"' ∉ b.closer) (hn : b.closer ≠ [])
    (hl : label ≠ "") (hc : contains b.closer label.toList = false) (id rest : List Char) :
    b.read? id (b.opener ++ (quoted label ++ (b.closer ++ rest))) =
      some (⟨label, b.shape⟩, rest) := by
  have hcut : cut b.closer (quoted label ++ (b.closer ++ rest)) = some (quoted label, rest) := by
    have h := cut_quoted hq hn (contains_eq_false_iff.1 hc) rest
    simpa [quoted] using h
  simp [Bracket.read?, hcut, trim_quoted, unquote_quoted, hl]

theorem bracketOf_shape (shape : Shape) : (bracketOf shape).shape = shape := by
  cases shape <;> rfl

theorem bracketOf_closer (shape : Shape) :
    '"' ∉ (bracketOf shape).closer ∧ (bracketOf shape).closer ≠ [] := by
  cases shape <;> decide

/-- No bracket pair that stands before the one of a shape opens where that one stands before a
quote. -/
theorem exists_brackets (shape : Shape) :
    ∃ before after, brackets = before ++ bracketOf shape :: after ∧
    ∀ b ∈ before, ∀ cs, after? b.opener ((bracketOf shape).opener ++ '"' :: cs) = none := by
  refine ⟨brackets.takeWhile (·.shape != shape), (brackets.dropWhile (·.shape != shape)).tail,
    ?_, ?_⟩
  · cases shape <;> rfl
  · cases shape <;> simp [brackets, bracketOf, after?]

theorem findSome?_brackets {shape : Shape} {cs : List Char} {x : Appearance × List Char}
    (h : (bracketOf shape).read? id ((bracketOf shape).opener ++ '"' :: cs) = some x) :
    brackets.findSome? (·.read? id ((bracketOf shape).opener ++ '"' :: cs)) = some x := by
  obtain ⟨before, after, he, hb⟩ := exists_brackets shape
  have hn : before.findSome? (·.read? id ((bracketOf shape).opener ++ '"' :: cs)) = none := by
    apply List.findSome?_eq_none_iff.2
    intro b hm
    simp [Bracket.read?, hb b hm]
  rw [he, List.findSome?_append, hn, Option.none_or, List.findSome?_cons_of_isSome (by simp [h]), h]

/-- A character that is not blank and stands in no keyword. -/
structure IsSign (c : Char) : Prop where
  solid : isBlank c = false
  ending : c.toLower ∉ "end".toList.map Char.toLower
  opening : c.toLower ∉ "subgraph".toList.map Char.toLower

theorem opener_cons (shape : Shape) : ∃ c r, (bracketOf shape).opener = c :: r ∧
    isWordChar c = false ∧ IsSign c := by
  cases shape <;>
    exact ⟨_, _, rfl, by decide +kernel, by decide, by decide, by decide⟩

theorem Mention.read?_bracketed {shape : Shape} {a : Appearance} (h : IsWord id) (hr :
    (bracketOf shape).read? id ((bracketOf shape).opener ++ '"' :: cs) = some (a, rest)) :
    Mention.read? (id ++ ((bracketOf shape).opener ++ '"' :: cs)) =
      some (⟨String.ofList id, some a⟩, rest) := by
  obtain ⟨c, r, ho, hw, -⟩ := opener_cons shape
  obtain ⟨ht, hd⟩ := h.span ((bracketOf shape).opener ++ '"' :: cs) (by simp [ho, hw])
  have hany : brackets.any (fun b => startsWith b.opener ((bracketOf shape).opener ++ '"' :: cs)) =
      true := by
    obtain ⟨before, after, he, -⟩ := exists_brackets shape
    simp [he, startsWith]
  simp only [Mention.read?, ht, hd, List.isEmpty_eq_false_iff.2 h.nonempty, hany,
    Bool.false_eq_true, if_false, if_true, findSome?_brackets hr]
  rfl

/-- A word before the brackets of a shape around a label in quotes is read as the mention of a node
with that label and that shape. -/
theorem Mention.read?_declared {shape : Shape} (h : IsWord id) (hl : label ≠ "")
    (hc : contains (bracketOf shape).closer label.toList = false) (rest : List Char) :
    Mention.read? (id ++ ((bracketOf shape).opener ++ (quoted label ++
      ((bracketOf shape).closer ++ rest)))) =
        some (⟨String.ofList id, some ⟨label, shape⟩⟩, rest) := by
  obtain ⟨hq, hn⟩ := bracketOf_closer shape
  have hread := Bracket.read?_quoted (bracketOf shape) hq hn hl hc id rest
  rw [bracketOf_shape] at hread
  simpa [quoted] using Mention.read?_bracketed h (by simpa [quoted] using hread)

theorem hops?_nil : hops? [] = some [] := by
  rw [hops?]
  rfl

theorem hops?_eq (cs : List Char) : hops? cs =
    if trimStart cs = [] then some []
    else (Link.read? cs).bind fun x => (Mention.read? x.2).bind fun y =>
      (hops? y.2).map ((x.1, y.1) :: ·) := by
  rw [hops?]
  simp only [List.isEmpty_iff]
  split
  · rfl
  · split
    · next h => simp [h]
    · next h =>
      split
      · next hm => simp [h, hm]
      · next hm => simp [h, hm]

theorem hops?_step {link : Link} {m : Mention} {after : List Char}
    (hn : (trimStart cs).isEmpty = false) (hl : Link.read? cs = some (link, rest))
    (hm : Mention.read? rest = some (m, after)) :
    hops? cs = (hops? after).map ((link, m) :: ·) := by
  rw [hops?_eq, if_neg (List.isEmpty_eq_false_iff.1 hn), hl, Option.bind_some, hm, Option.bind_some]

theorem Statement.read?_eq_some_iff {s : Statement} : Statement.read? cs = some s ↔
    ∃ rest, Mention.read? cs = some (s.first, rest) ∧ hops? rest = some s.hops := by
  simp only [Statement.read?, Option.bind_eq_bind, Option.bind_eq_some_iff, Prod.exists,
    Option.pure_def, Option.some.injEq]
  constructor
  · rintro ⟨_, rest, hm, _, hr, rfl⟩
    exact ⟨rest, hm, hr⟩
  · rintro ⟨rest, hm, hr⟩
    exact ⟨s.first, rest, hm, s.hops, hr, rfl⟩

/-- What may follow an operator in a printed line: a blank or a label. -/
def EndsOperator (cs : List Char) : Prop :=
  ∃ c r, cs = c :: r ∧ (c = ' ' ∨ c = '|')

theorem operator?_append {stroke : Stroke} {cap : Cap} {op : List Char}
    (ho : operatorOf? stroke cap = some op) (rest : List Char) (hr : EndsOperator rest) :
    operator? (op ++ rest) = some (⟨stroke, cap, none⟩, rest) := by
  obtain ⟨c, r, rfl, hc⟩ := hr
  have hb : c ≠ '>' ∧ c ≠ '-' ∧ c ≠ '=' ∧ (isBlank c || c == '|') = true := by
    rcases hc with rfl | rfl <;> decide
  obtain ⟨hg, hd, he, hb⟩ := hb
  cases stroke <;> cases cap <;> cases ho <;>
    simp [operator?, dotted?, stroked?, closed?, run, letter?, hg, hd, he, hb]

theorem operatorOf?_cons {stroke : Stroke} {cap : Cap} {op : List Char}
    (ho : operatorOf? stroke cap = some op) : ∃ c r, op = c :: r ∧ isWordChar c = false ∧ IsSign c ∧
      ∀ cs, brackets.any (fun b => startsWith b.opener (c :: cs)) = false := by
  cases stroke <;> cases cap <;> cases ho <;>
    exact ⟨_, _, rfl, by decide +kernel, ⟨by decide, by decide, by decide⟩, fun _ => rfl⟩

/-- The text of a label that a link keeps as it is: not blank, trimmed, and without a bar. -/
structure IsLabel (label : String) : Prop where
  nonempty : label ≠ ""
  trimmed : trim label.toList = label.toList
  unbarred : '|' ∉ label.toList

theorem IsLabel.label?_quoted (h : IsLabel label) : label? (quoted label) = some label := by
  rw [label?, trim_quoted, unquote_quoted, h.trimmed]
  cases hl : label.toList with
  | nil => exact absurd (String.toList_eq_nil_iff.1 hl) h.nonempty
  | cons c r => simp only [← hl, String.ofList_toList]

def barred (label : Option String) : List Char :=
  label.elim [] fun label => '|' :: quoted label ++ ['|']

/-- An operator with a label or without one is read up to the word that it leads to. -/
theorem Link.read?_append {stroke : Stroke} {cap : Cap} {op target : List Char}
    {label : Option String} (ho : operatorOf? stroke cap = some op) (hl : ∀ l ∈ label, IsLabel l)
    (ht : IsWord target) :
    Link.read? (op ++ (barred label ++ ' ' :: target)) = some (⟨stroke, cap, label⟩, target) := by
  have htrim : trimStart target = target := by
    apply trimStart_eq_self
    intro c hc
    exact ht.not_blank c (List.mem_of_mem_head? hc)
  have hs : trimStart (op ++ (barred label ++ ' ' :: target)) =
      op ++ (barred label ++ ' ' :: target) := by
    obtain ⟨c, r, rfl, -, hc, -⟩ := operatorOf?_cons ho
    exact trimStart_eq_self (by simp [hc.solid])
  cases label with
  | none =>
    have hop := operator?_append ho (' ' :: target) ⟨' ', target, rfl, .inl rfl⟩
    have hb : trimStart (' ' :: target) = target := by rw [trimStart_cons_blank (by decide), htrim]
    simp only [barred, Option.elim_none, List.nil_append] at hs ⊢
    obtain ⟨c, r, rfl⟩ := List.exists_cons_of_ne_nil ht.nonempty
    have hne : c ≠ '|' := by
      rintro rfl
      exact absurd (ht.chars '|' List.mem_cons_self) (by decide +kernel)
    simp [Link.read?, hs, hop, hb, hne]
  | some label =>
    have hop := operator?_append ho (barred (some label) ++ ' ' :: target)
      ⟨'|', quoted label ++ '|' :: ' ' :: target, by simp [barred], .inr rfl⟩
    have hn : '|' ∉ quoted label := by
      simpa [quoted] using (hl label rfl).unbarred
    have hb : trimStart (barred (some label) ++ ' ' :: target) =
        '|' :: (quoted label ++ '|' :: ' ' :: target) := by
      simp [barred, trimStart, show isBlank '|' = false by decide]
    have hk : trimStart (' ' :: target) = target := by rw [trimStart_cons_blank (by decide), htrim]
    simp [Link.read?, hs, hop, hb, cut_char hn, (hl label rfl).label?_quoted, hk]

/-- A line that is a chain and no keyword, since a sign follows its first word. -/
theorem Line.ofText_statement {word : List Char} {c : Char} {s : Statement}
    (hw : ∀ d ∈ word, isBlank d = false) (hc : IsSign c)
    (hl : ∀ d ∈ (word ++ c :: rest).getLast?, d ≠ ';' ∧ isBlank d = false)
    (hs : Statement.read? (word ++ c :: rest) = some s) :
    Line.ofText (word ++ c :: rest) = .statement s := by
  have hd : dropEndWhile (· == ';') (word ++ c :: rest) = word ++ c :: rest :=
    dropEndWhile_eq_self fun d hd => by simpa using (hl d hd).1
  have ht : trimEnd (word ++ c :: rest) = word ++ c :: rest :=
    dropEndWhile_eq_self fun d hd => (hl d hd).2
  have he : sameLetters (word ++ c :: rest) "end".toList = false :=
    sameLetters_eq_false (by simp) hc.ending
  have hk : afterKeyword? "subgraph".toList (word ++ c :: rest) = none :=
    afterKeyword?_eq_none hw hc.solid hc.opening rest
  simp only [Line.ofText, hd, ht, he, hk, hs, Bool.false_eq_true, if_false]

theorem closer_last (shape : Shape) (before : List Char) :
    ∀ c ∈ (before ++ (bracketOf shape).closer).getLast?, c ≠ ';' ∧ isBlank c = false := by
  cases shape <;> simp [bracketOf, brackets] <;> decide

theorem IsWord.last (h : IsWord cs) (before : List Char) :
    ∀ c ∈ (before ++ cs).getLast?, c ≠ ';' ∧ isBlank c = false := by
  obtain ⟨r, d, rfl⟩ := (List.eq_nil_or_concat cs).resolve_left h.nonempty
  rw [List.concat_eq_append] at h
  intro c hc
  rw [List.concat_eq_append, ← List.append_assoc, List.getLast?_concat] at hc
  cases hc
  refine ⟨?_, h.not_blank d (by simp)⟩
  rintro rfl
  exact absurd (h.chars ';' (by simp)) (by decide +kernel)

end Chartboard.Flow

namespace Chartboard
open Chartboard.Text Chartboard.Flow

/-- A node that a declaration spells: its id is a word, and its label is one line that does not
close the brackets around it. -/
structure Node.Printable (node : Node) : Prop where
  word : IsWord node.id.toList
  annotated : node.annotated = true
  labelled : node.label ≠ ""
  unbroken : '\n' ∉ node.label.toList
  unclosed : contains (bracketOf node.shape).closer node.label.toList = false

/-- A group whose id the opening bracket ends, with a title of one line. -/
structure Group.Printable (group : Group) : Prop where
  named : group.id ≠ ""
  trimmed : trim group.id.toList = group.id.toList
  unopened : '[' ∉ group.id.toList
  unbroken : '\n' ∉ group.id.toList
  titled : group.title ≠ ""
  unbrokenTitle : '\n' ∉ group.title.toList

/-- An edge that an operator draws, with a label of one line that a link keeps. -/
structure Edge.Printable (edge : Edge) : Prop where
  uncapped : edge.startCap = .none
  drawn : (operatorOf? edge.stroke edge.endCap).isSome
  label : ∀ label ∈ edge.label, IsLabel label
  unbroken : ∀ label ∈ edge.label, '\n' ∉ label.toList

def Node.line (node : Node) : Line :=
  .statement ⟨⟨node.id, some ⟨node.label, node.shape⟩⟩, []⟩

def Edge.hop (edge : Edge) : Line :=
  .statement ⟨⟨edge.source, none⟩, [(⟨edge.stroke, edge.endCap, edge.label⟩, ⟨edge.target, none⟩)]⟩

def Group.heading (group : Group) : List Char :=
  "subgraph ".toList ++ group.id.toList ++ '[' :: quoted group.title ++ [']']

theorem Node.Printable.ofText {node : Node} (h : node.Printable) :
    Line.ofText node.declaration = node.line := by
  obtain ⟨c, r, ho, -, hc⟩ := opener_cons node.shape
  have hr := Mention.read?_declared h.word h.labelled h.unclosed []
  rw [List.append_nil, ho, List.cons_append] at hr
  have he : node.declaration = node.id.toList ++ c :: (r ++ (quoted node.label ++
      (bracketOf node.shape).closer)) := by
    simp [Node.declaration, ho]
  have hl := closer_last node.shape (node.id.toList ++ c :: (r ++ quoted node.label))
  rw [he]
  refine Line.ofText_statement h.word.not_blank hc (by simpa using hl) ?_
  simp [Statement.read?, hr, hops?_nil]

theorem Edge.Printable.ofText {edge : Edge} (h : edge.Printable)
    (hsource : IsWord edge.source.toList) (htarget : IsWord edge.target.toList) :
    Line.ofText edge.line = edge.hop := by
  obtain ⟨op, ho⟩ := Option.isSome_iff_exists.1 h.drawn
  obtain ⟨c, r, rfl, hw, hc, hb⟩ := operatorOf?_cons ho
  have hr := Link.read?_append ho h.label htarget
  have hs := Mention.read?_bare hsource
    (c :: (r ++ (barred edge.label ++ ' ' :: edge.target.toList))) (by simp [hw]) (hb _)
  have ht := Mention.read?_bare htarget [] (by simp) (by decide)
  have he : edge.line = edge.source.toList ++ c :: (r ++ (barred edge.label ++
      ' ' :: edge.target.toList)) := by
    simp [Edge.line, ho, barred]
  have hl := htarget.last (edge.source.toList ++ c :: (r ++ (barred edge.label ++ [' '])))
  rw [List.cons_append] at hr
  rw [List.append_nil] at ht
  rw [he]
  refine Line.ofText_statement hsource.not_blank hc (by simpa using hl) ?_
  have hh : hops? (c :: (r ++ (barred edge.label ++ ' ' :: edge.target.toList))) =
      some [(⟨edge.stroke, edge.endCap, edge.label⟩, ⟨edge.target, none⟩)] := by
    have hn : (trimStart (c :: (r ++ (barred edge.label ++ ' ' :: edge.target.toList)))).isEmpty =
        false := by
      rw [trimStart_eq_self (by simp [hc.solid])]
      rfl
    simp [hops?_step hn hr ht, hops?_nil]
  simp [Statement.read?, hs, hh]

/-- A title in quotes and brackets after an id gives both back. -/
theorem Group.Printable.heading {group : Group} (h : group.Printable) :
    Flow.heading (group.id.toList ++ '[' :: (quoted group.title ++ [']'])) =
      (group.id.toList, group.title.toList) := by
  have hc := cut_char h.unopened (quoted group.title ++ [']'])
  simp [Flow.heading, hc, h.trimmed, trim_quoted, unquote_quoted]

theorem Group.heading_eq (group : Group) : group.heading = "subgraph".toList ++
    ' ' :: (group.id.toList ++ '[' :: (quoted group.title ++ [']'])) := by
  have hs : ∀ cs, "subgraph ".toList ++ cs = "subgraph".toList ++ ' ' :: cs := by simp
  unfold Group.heading
  rw [List.append_assoc, List.append_assoc]
  exact hs _

theorem Group.heading_last (group : Group) : group.heading.getLast? = some ']' := by
  unfold Group.heading
  exact List.getLast?_concat

theorem Group.Printable.ofText {group : Group} (h : group.Printable) :
    Line.ofText group.heading = .opening group.id.toList group.title.toList := by
  obtain ⟨c, r, hi⟩ := List.exists_cons_of_ne_nil fun he => h.named (String.toList_eq_nil_iff.1 he)
  have hl : ∀ p : Char → Bool, p ']' = false → dropEndWhile p group.heading = group.heading := by
    intro p hp
    exact dropEndWhile_eq_self (by simp [group.heading_last, hp])
  have hn : sameLetters group.heading "end".toList = false :=
    sameLetters_eq_false (c := '[') (by simp [group.heading_eq]) (by decide)
  have ht : trim (group.id.toList ++ '[' :: (quoted group.title ++ [']'])) =
      group.id.toList ++ '[' :: (quoted group.title ++ [']']) := by
    apply trim_eq_self
    · intro d hd
      exact head_of_trim h.trimmed d (by simpa [hi] using hd)
    · intro d hd
      rw [← List.cons_append, ← List.append_assoc, List.getLast?_concat] at hd
      cases hd
      decide
  have hk : afterKeyword? "subgraph".toList group.heading =
      some (group.id.toList ++ '[' :: (quoted group.title ++ [']'])) := by
    rw [group.heading_eq, afterKeyword?_append _ (by decide), ht]
  simp only [Line.ofText, trimEnd, hl (· == ';') (by decide), hl isBlank (by decide), hn, hk,
    h.heading, Bool.false_eq_true, if_false]

theorem Line.ofText_end : Line.ofText "end".toList = .close := by
  rfl

end Chartboard
