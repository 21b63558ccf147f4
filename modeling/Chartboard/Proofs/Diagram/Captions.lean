import Chartboard.Proofs.Flow.Labels
import Chartboard.Proofs.Flow.Records
import Chartboard.Proofs.Flow.Splitting
import Chartboard.Proofs.Sequence.Appearances
import Chartboard.Proofs.Text.Quoting

namespace Chartboard
open Chartboard.Text Chartboard.Flow

/-- How a text beside an id is shown. -/
structure Captions (id text : List Char) (label : String) : Prop where
  shown : label = caption id text
  visible : Visible label ↔ ¬ IsHollow text

theorem Captions.of_trim {id cs : List Char} (hid : Visible (String.ofList id))
    (ht : trim cs = cs) : Captions id cs (caption id cs) :=
  ⟨rfl, caption_visible_iff ht hid⟩

/-- The text that titles a group: the one in brackets at the end of a heading, or else all of the
heading. -/
def Flow.titled (cs : List Char) : List Char :=
  match cut ['['] cs with
  | some (_, title) => if title.getLast? = some ']' then trim title.dropLast else cs
  | none => cs

/-- A node that shows its id, or what stands in brackets behind its id on a line. -/
def Node.Captioned (node : Node) (lines : List (List Char)) : Prop :=
  node.annotated = false ∧ node.label = node.id ∧ Visible node.label ∨
  node.annotated = true ∧ ∃ line ∈ lines, ∃ b ∈ brackets, ∃ inner, b.shape = node.shape ∧
    node.id.toList ++ b.opener ++ inner ++ b.closer <:+: line ∧
    Captions node.id.toList (trim inner) node.label

/-- A group that shows the title in a heading. -/
def Group.Captioned (group : Group) (lines : List (List Char)) : Prop :=
  ∃ line ∈ lines, ∃ rest, afterKeyword? "subgraph".toList (said line) = some rest ∧
    Captions group.id.toList (titled rest) group.title

structure FlowGraph.Captioned (graph : FlowGraph) (lines : List (List Char)) : Prop where
  nodes : ∀ node ∈ graph.nodes, node.Captioned lines
  groups : ∀ group ∈ graph.groups, group.Captioned lines
  edges : ∀ edge ∈ graph.edges, ∀ label ∈ edge.label,
    label ≠ "" ∧ trim label.toList = label.toList ∧ Visible label

/-- A declaration of an id with a name for it. -/
def Declares (line id name : List Char) : Prop :=
  ∃ keyword ∈ ["participant", "actor"], ∃ rest before after,
    afterKeyword? keyword.toList line = some rest ∧
    cut " as ".toList rest = some (before, after) ∧ trim before = id ∧ trim after = name

/-- A participant that shows its id, or the name that a line declares without the quotes at both of
its ends. No id stands in for a name. -/
def Participant.Captioned (p : Participant) (lines : List (List Char)) : Prop :=
  p.label = p.id ∧ Visible p.label ∨
  ∃ line ∈ lines, ∃ name, Declares line p.id.toList name ∧
    p.label = String.ofList (stripped name) ∧ (Visible p.label ↔ ¬ IsQuotes name)

def SequenceDiagram.Captioned (diagram : SequenceDiagram) (lines : List (List Char)) : Prop :=
  ∀ p ∈ diagram.participants, p.Captioned lines

def Diagram.Captioned (lines : List (List Char)) : Diagram → Prop
  | .flow graph => graph.Captioned lines
  | .sequence diagram => diagram.Captioned lines

namespace Flow

variable {cs id title rest : List Char} {m : Mention} {a : Appearance}

theorem IsWord.visible (h : IsWord id) : Visible (String.ofList id) := by
  obtain ⟨c, r, rfl⟩ := List.exists_cons_of_ne_nil h.nonempty
  exact ⟨c, by simp, h.not_blank c List.mem_cons_self⟩

/-- The look that a mention gives to its node is written in brackets behind the id. -/
theorem Mention.read?_captions (h : Mention.read? cs = some (m, rest))
    (ha : m.appearance = some a) : ∃ b ∈ brackets, ∃ inner, b.shape = a.shape ∧
      m.id.toList ++ b.opener ++ inner ++ b.closer <+: cs ∧
      Captions m.id.toList (trim inner) a.label := by
  obtain ⟨id, text, rfl, hid, hm, hann⟩ := Mention.read?_eq_some_iff.1 h
  rw [ha] at hann
  cases hann with
  | @bracketed before after b inner rest he hn hc =>
    rw [hm, String.toList_ofList]
    refine ⟨b, by simp [he], inner, rfl, ⟨rest, by simp⟩, ?_⟩
    exact .of_trim hid.visible (trim_trim inner)

theorem Line.mem_mentions_iff {line : Line} :
    m ∈ line.mentions ↔ ∃ s, line = .statement s ∧ m ∈ s.mentions := by
  cases line <;> simp [Line.mentions]

theorem Line.ofText_mention (h : m ∈ (Line.ofText cs).mentions) :
    ∃ place rest, place <:+: cs ∧ Mention.read? place = some (m, rest) := by
  obtain ⟨s, hl, hm⟩ := Line.mem_mentions_iff.1 h
  obtain ⟨-, -, hread⟩ := Line.ofText_eq_statement_iff.1 hl
  obtain ⟨place, rest, hs, hm⟩ := Statement.read?_mention hread m hm
  obtain ⟨tail, -, he⟩ := exists_said cs
  have hsaid : said cs <+: cs := ⟨tail, he.symm⟩
  exact ⟨place, rest, hs.isInfix.trans hsaid.isInfix, hm⟩

/-- A node that is told from mentions shows its id or what one of them gives to it. -/
theorem Shows.cases {node : Node} {given : List Appearance} (h : Shows node given) :
    (node.annotated = false ∧ node.label = node.id) ∨
      node.annotated = true ∧ ⟨node.label, node.shape⟩ ∈ given := by
  have hlook := h.look
  cases hn : node.annotated with
  | false =>
    have hnil : given = [] := by
      by_contra hne
      rw [h.annotated.2 hne] at hn
      cases hn
    rw [hnil] at hlook
    exact .inl ⟨rfl, congrArg Appearance.label hlook⟩
  | true =>
    refine .inr ⟨rfl, ?_⟩
    rw [hlook, Flow.look]
    cases hf : given.find? (·.shape != .rectangle) with
    | some b => exact List.mem_of_find?_eq_some hf
    | none =>
      obtain ⟨b, r, rfl⟩ := List.exists_cons_of_ne_nil (h.annotated.1 hn)
      exact List.mem_cons_self

theorem heading_title (cs : List Char) : (heading cs).2 = unquote (titled cs) := by
  cases hk : cut ['['] cs with
  | none => simp only [heading, titled, hk]
  | some found =>
    simp only [heading, titled, hk]
    split <;> rfl

theorem trim_titled (h : trim cs = cs) : trim (titled cs) = titled cs := by
  unfold titled
  split
  · split
    · exact trim_trim _
    · exact h
  · exact h

theorem trim_heading (h : trim cs = cs) : trim (heading cs).1 = (heading cs).1 := by
  unfold heading
  split
  · split
    · exact trim_trim _
    · exact h
  · exact h

theorem trim_afterKeyword? {keyword : List Char} (h : afterKeyword? keyword cs = some rest) :
    trim rest = rest := by
  simp only [afterKeyword?] at h
  split at h
  · cases h
    exact trim_trim _
  · cases h

theorem Line.ofText_opening (h : Line.ofText cs = .opening id title) : ∃ rest,
    afterKeyword? "subgraph".toList (said cs) = some rest ∧
      id = (heading rest).1 ∧ title = unquote (titled rest) := by
  unfold Line.ofText at h
  simp only at h
  split at h
  · cases h
  · split at h
    · next rest hk =>
      cases h
      exact ⟨rest, hk, rfl, heading_title rest⟩
    · split at h <;> cases h

theorem Group.visible_id (number : Nat) (h : trim id = id) (title : List Char) :
    Visible (Group.ofHeading number id title).id := by
  by_cases hn : id = []
  · have hs : 's' ∈ (toString "subgraph").toList := by decide
    exact ⟨'s', by simp [Group.ofHeading, hn, hs], by decide⟩
  · have hid : (Group.ofHeading number id title).id = String.ofList id := by
      simp [Group.ofHeading, hn]
    rw [hid]
    exact visible_of_trim h hn

theorem Group.captions (number : Nat) (hid : trim id = id) (ht : trim cs = cs) :
    Captions (Group.ofHeading number id (unquote cs)).id.toList cs
      (Group.ofHeading number id (unquote cs)).title := by
  have hv := Group.visible_id number hid (unquote cs)
  have he : (Group.ofHeading number id (unquote cs)).title =
      caption (Group.ofHeading number id (unquote cs)).id.toList cs := by
    simp only [Group.ofHeading, caption]
    cases (unquote cs).isEmpty <;> simp
  rw [he]
  exact .of_trim (by simpa using hv) ht

def Line.edges : Line → List Edge
  | .statement s => s.edges
  | _ => []

theorem edges_add (draft : Draft) (line : Line) :
    (draft.add line).graph.edges = draft.graph.edges ++ line.edges := by
  cases line with
  | statement s => simp [Draft.add, Line.edges, edges_mentions]
  | close => simp [Draft.add, Line.edges]
  | opening id title => simp [Draft.add, Line.edges]
  | other => simp [Draft.add, Line.edges]

theorem foldl_edges (draft : Draft) (lines : List Line) :
    (lines.foldl Draft.add draft).graph.edges = draft.graph.edges ++ lines.flatMap Line.edges := by
  induction lines generalizing draft with
  | nil => simp
  | cons line lines ih => rw [List.foldl_cons, ih, edges_add, List.flatMap_cons, List.append_assoc]

theorem Line.mem_edges_iff {line : Line} {edge : Edge} :
    edge ∈ line.edges ↔ ∃ s, line = .statement s ∧ edge ∈ s.edges := by
  cases line <;> simp [Line.edges]

theorem Line.ofText_edge {edge : Edge} (h : edge ∈ (Line.ofText cs).edges) {label : String}
    (hlabel : edge.label = some label) : ∃ text, label? text = some label := by
  obtain ⟨s, hl, hm⟩ := Line.mem_edges_iff.1 h
  obtain ⟨-, -, hread⟩ := Line.ofText_eq_statement_iff.1 hl
  obtain ⟨-, hop, hhop, -, he, -⟩ := mem_edgesFrom hm
  obtain ⟨behind, place, hlink⟩ := Statement.read?_link hread hop hhop
  obtain ⟨w, -, hdraws⟩ := Link.read?_eq_some_iff.1 hlink
  have hkept := hdraws.label.symm
  rw [← he, hlabel] at hkept
  obtain ⟨text, -, ht⟩ := Option.bind_eq_some_iff.1 hkept
  exact ⟨text, ht⟩

theorem mem_appearances_iff {id : String} {mentions : List Mention} :
    a ∈ appearances id mentions ↔ ∃ m ∈ mentions, m.id = id ∧ m.appearance = some a := by
  simp [appearances, List.mem_filterMap]

theorem Draft.Recalls.node_captions {draft : Draft} {texts : List (List Char)} {node : Node}
    (h : draft.Recalls (texts.map Line.ofText)) (hn : node ∈ draft.graph.nodes)
    (hid : IsWord node.id.toList) : node.Captioned texts := by
  rcases (h.told.shows node hn).cases with ⟨hplain, he⟩ | ⟨hannotated, hm⟩
  · refine .inl ⟨hplain, he, ?_⟩
    rw [he]
    simpa using hid.visible
  · obtain ⟨m, hm, hmid, ha⟩ := mem_appearances_iff.1 hm
    obtain ⟨_, hl, hm⟩ := List.mem_flatMap.1 hm
    obtain ⟨line, hline, rfl⟩ := List.mem_map.1 hl
    obtain ⟨place, rest, hplace, hread⟩ := Line.ofText_mention hm
    obtain ⟨b, hb, inner, hshape, hprefix, hcaptions⟩ := Mention.read?_captions hread ha
    rw [hmid] at hprefix hcaptions
    exact .inr ⟨hannotated, line, hline, b, hb, inner, hshape, hprefix.isInfix.trans hplace,
      hcaptions⟩

theorem Line.heading?_eq_some_iff {line : Line} :
    line.heading? = some (id, title) ↔ line = .opening id title := by
  cases line <;> simp [Line.heading?]

theorem Draft.Recalls.group_captions {draft : Draft} {texts : List (List Char)} {group : Group}
    (h : draft.Recalls (texts.map Line.ofText)) (hg : group ∈ draft.graph.groups) :
    group.Captioned texts := by
  have hm : group.vacant ∈ draft.graph.groups.map Group.vacant := List.mem_map_of_mem hg
  rw [h.headed] at hm
  obtain ⟨i, hi, he⟩ := List.mem_mapIdx.1 hm
  obtain ⟨_, hl, hheading⟩ := List.mem_filterMap.1 (List.getElem_mem hi)
  obtain ⟨line, hline, rfl⟩ := List.mem_map.1 hl
  generalize ((texts.map Line.ofText).filterMap Line.heading?)[i] = heading at he hheading
  obtain ⟨id, title⟩ := heading
  obtain ⟨rest, hk, rfl, rfl⟩ := Line.ofText_opening (Line.heading?_eq_some_iff.1 hheading)
  have ht := trim_afterKeyword? hk
  have hcaptions : Captions group.vacant.id.toList (Flow.titled rest) group.vacant.title := by
    rw [← he]
    exact Group.captions (i + 1) (trim_heading ht) (trim_titled ht)
  exact ⟨line, hline, rest, hk, hcaptions⟩

end Flow

theorem FlowGraph.ofLines_captioned (direction : Direction) (lines : List (List Char)) :
    (FlowGraph.ofLines direction lines).Captioned lines := by
  have hrecalls := (recalls_nothing direction).foldl (lines.map Line.ofText)
  have hcoherent := FlowGraph.ofLines_coherent direction lines
  refine ⟨fun node hn => hrecalls.node_captions hn (hcoherent.graph.named node hn),
    fun group hg => hrecalls.group_captions hg, ?_⟩
  intro edge he label hlabel
  have hedges : (FlowGraph.ofLines direction lines).edges =
      (lines.map Line.ofText).flatMap Line.edges := foldl_edges _ _
  rw [hedges] at he
  obtain ⟨_, hl, he⟩ := List.mem_flatMap.1 he
  obtain ⟨line, -, rfl⟩ := List.mem_map.1 hl
  obtain ⟨text, ht⟩ := Line.ofText_edge he hlabel
  obtain ⟨htrim, hvisible⟩ := label?_visible ht
  exact ⟨hvisible.ne_empty, htrim, hvisible⟩

namespace Sequence

variable {cs : List Char} {p : Participant}

theorem Line.ofText_declaration (h : Line.ofText cs = .declaration p) :
    ∃ keyword ∈ ["participant", "actor"], ∃ actor rest,
      afterKeyword? keyword.toList cs = some rest ∧ p = declared actor rest := by
  unfold Line.ofText at h
  split at h
  · next rest hk =>
    cases h
    exact ⟨"participant", by simp, false, rest, hk, rfl⟩
  · split at h
    · next rest hk =>
      cases h
      exact ⟨"actor", by simp, true, rest, hk, rfl⟩
    · split at h
      · cases h
      · split at h <;> cases h

/-- Whom a line brings up shows its own id or the name that the line declares. -/
theorem Line.introduces_label (h : p ∈ (Line.ofText cs).introduces) :
    p.label = p.id ∨ ∃ name, Declares cs p.id.toList name ∧
      p.label = String.ofList (stripped name) := by
  cases hl : Line.ofText cs with
  | declaration q =>
    have hq : p = q := by
      rw [hl, Line.introduces] at h
      split at h
      · cases h
      · exact List.mem_singleton.1 h
    subst hq
    obtain ⟨keyword, hk, actor, rest, hr, rfl⟩ := Line.ofText_declaration hl
    unfold declared
    split
    · next before after hc =>
      refine .inr ⟨trim after, ⟨keyword, hk, rest, before, after, hr, hc, ?_, rfl⟩, rfl⟩
      exact String.toList_ofList.symm
    · exact .inl rfl
  | message m =>
    have hp : p = undeclared m.sender ∨ p = undeclared m.receiver := by
      simpa [hl, Line.introduces] using h
    rcases hp with rfl | rfl
    · exact .inl rfl
    · exact .inl rfl
  | other =>
    rw [hl] at h
    cases h

end Sequence

theorem SequenceDiagram.ofLines_captioned (lines : List (List Char)) :
    (SequenceDiagram.ofLines lines).Captioned lines := by
  have hdrawn := SequenceDiagram.drawn_ofLines lines
  intro p hp
  have hid : Visible p.id := by
    obtain ⟨hne, htrim⟩ := hdrawn.named p hp
    simpa using visible_of_trim htrim (by simpa using hne)
  have hm := List.mem_of_find?_eq_some ((hdrawn.first p).1 hp)
  obtain ⟨_, hl, hi⟩ := List.mem_flatMap.1 hm
  obtain ⟨line, hline, rfl⟩ := List.mem_map.1 hl
  rcases Sequence.Line.introduces_label hi with he | ⟨name, hname, he⟩
  · exact .inl ⟨he, he ▸ hid⟩
  · refine .inr ⟨line, hline, name, hname, he, ?_⟩
    rw [he]
    exact stripped_visible_iff

/-- What a diagram shows is what its lines say, or the ids of its items. It shows nothing where a
line says blanks in quotes, or gives an alias of quotes. -/
theorem read_captioned {text : List Char} {diagram : Diagram}
    (h : Diagram.read text = .ok diagram) : diagram.Captioned (bodyLines text) := by
  obtain ⟨_, header, -, -, rfl⟩ := Diagram.exists_header h
  cases header with
  | flow direction => exact FlowGraph.ofLines_captioned direction (bodyLines text)
  | sequence => exact SequenceDiagram.ofLines_captioned (bodyLines text)

/-- A flowchart with blanks in quotes for a title, a label and the text of a link, and with nothing
in quotes for another label. -/
def hollow : FlowGraph where
  direction := .topToBottom
  nodes := [⟨"A", "  ", .rectangle, true, some 0⟩, ⟨"B", "B", .circle, true, some 0⟩]
  edges := [⟨"A", "B", none, .solid, .none, .arrow⟩]
  groups := [⟨"g", " ", ["A", "B"]⟩]

def hollowText : String :=
  "flowchart TB\nsubgraph g [\" \"]\nA[\"  \"] -- \" \" --> B((\"\"))\nend"

theorem hollow_captioned : Diagram.read hollowText.toList = .ok (.flow hollow) ∧
    (Diagram.flow hollow).Captioned (bodyLines hollowText.toList) := by
  have h : Diagram.read hollowText.toList = .ok (.flow hollow) := by decide +kernel
  exact ⟨h, read_captioned h⟩

/-- A label, a title and an alias that show nothing. -/
theorem blanks_shown : Diagram.read hollowText.toList = .ok (.flow hollow) ∧
    (∃ node ∈ hollow.nodes, ¬ Visible node.label) ∧
    (∃ group ∈ hollow.groups, ¬ Visible group.title) ∧
    Diagram.read "sequenceDiagram\nparticipant S as \"\"".toList =
      .ok (.sequence { participants := [⟨"S", "", false⟩] }) ∧ ¬ Visible "" := by
  have hlabel : ¬ Visible "  " := by decide
  have htitle : ¬ Visible " " := by decide
  exact ⟨by decide +kernel, ⟨_, List.mem_cons_self, hlabel⟩, ⟨_, List.mem_cons_self, htitle⟩,
    by decide +kernel, by decide⟩

end Chartboard
