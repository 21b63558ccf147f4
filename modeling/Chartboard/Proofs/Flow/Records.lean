import Chartboard.Proofs.Flow.WellFormed

namespace Chartboard
open Chartboard.Text Chartboard.Flow

namespace Flow

def Line.mentions : Line → List Mention
  | .statement s => s.mentions
  | _ => []

/-- The appearances that mentions give to an id. -/
def appearances (id : String) (mentions : List Mention) : List Appearance :=
  mentions.filterMap fun m => if m.id = id then m.appearance else none

/-- How a node looks: like the first appearance that is no rectangle, or else like the first one, or
else like a rectangle around its id. -/
def look (id : String) (given : List Appearance) : Appearance :=
  ((given.find? (·.shape != .rectangle)).or given.head?).getD ⟨id, .rectangle⟩

def Line.heading? : Line → Option (List Char × List Char)
  | .opening id title => some (id, title)
  | _ => none

def openings (lines : List Line) : Nat :=
  (lines.filterMap Line.heading?).length

def closings (lines : List Line) : Nat :=
  lines.countP fun
    | .close => true
    | _ => false

/-- After lines the group with the number `g` is open, and `depth` groups are open inside it: since
its heading there were never more ends than groups to close. -/
def IsOpen (lines : List Line) (depth g : Nat) : Prop :=
  ∃ outside id title inside, lines = outside ++ .opening id title :: inside ∧
    openings outside = g ∧ (∀ part, part <+: inside → closings part ≤ openings part) ∧
    openings inside = closings inside + depth

/-- The lines before the first one that mentions an id. -/
def linesBefore (id : String) (lines : List Line) : List Line :=
  lines.takeWhile fun line => line.mentions.all (·.id != id)

end Flow

/-- A group without its members. -/
def Group.vacant (group : Group) : Group :=
  { group with members := [] }

/-- A graph that can be told from the lines that draw it. The groups stand in the order of their
headings and the nodes in that of their first mentions, each of them in the innermost group that is
open there. -/
structure FlowGraph.Records (graph : FlowGraph) (lines : List Line) : Prop where
  headed : graph.groups.map Group.vacant =
    (lines.filterMap Line.heading?).mapIdx fun i (id, title) => Group.ofHeading (i + 1) id title
  ordered : graph.nodes.map (·.id) = ((lines.flatMap Line.mentions).map (·.id)).eraseDups
  look : ∀ node ∈ graph.nodes, (⟨node.label, node.shape⟩ : Appearance) =
    look node.id (appearances node.id (lines.flatMap Line.mentions))
  annotated : ∀ node ∈ graph.nodes, node.annotated = true ↔
    ∃ m ∈ lines.flatMap Line.mentions, m.id = node.id ∧ m.appearance.isSome
  group : ∀ node ∈ graph.nodes, ∀ g, node.group = some g ↔ IsOpen (linesBefore node.id lines) 0 g

namespace Flow

variable {graph : FlowGraph} {node : Node} {m : Mention} {mentions : List Mention}
  {lines : List Line} {line : Line} {draft : Draft} {id : String}

theorem look_concat (id : String) (given : List Appearance) (a : Appearance) :
    look id (given ++ [a]) =
      if given = [] ∨ ((look id given).shape = .rectangle ∧ a.shape ≠ .rectangle) then a
      else look id given := by
  unfold look
  rw [List.find?_append]
  cases hf : given.find? (·.shape != .rectangle) with
  | some b =>
    have hb : b.shape ≠ .rectangle := by simpa using List.find?_some hf
    have hne : given ≠ [] := List.ne_nil_of_mem (List.mem_of_find?_eq_some hf)
    simp [hb, hne]
  | none =>
    cases given with
    | nil =>
      by_cases ha : a.shape = .rectangle
      · simp [ha]
      · simp [ha]
    | cons b given =>
      have hb : b.shape = .rectangle := by
        simpa using List.find?_eq_none.1 hf b List.mem_cons_self
      by_cases ha : a.shape = .rectangle
      · simp [ha]
      · simp [ha, hb]

/-- A node as appearances leave it. -/
structure Shows (node : Node) (given : List Appearance) : Prop where
  look : (⟨node.label, node.shape⟩ : Appearance) = look node.id given
  annotated : node.annotated = true ↔ given ≠ []

theorem Shows.annotate {given : List Appearance} (h : Shows node given) (a : Appearance) :
    Shows (annotate a node) (given ++ [a]) := by
  have hshape : node.shape = (Flow.look node.id given).shape := congrArg Appearance.shape h.look
  have hiff : (!node.annotated || (node.shape == .rectangle && a.shape != .rectangle)) = true ↔
      given = [] ∨ ((Flow.look node.id given).shape = .rectangle ∧ a.shape ≠ .rectangle) := by
    have ha : node.annotated = false ↔ given = [] := by
      rw [← Bool.not_eq_true, h.annotated, not_not]
    simp [ha, hshape]
  unfold Flow.annotate
  split
  · next hc =>
    exact ⟨by rw [look_concat, if_pos (hiff.1 hc)], by simp⟩
  · next hc =>
    have hn := fun he => hc (hiff.2 he)
    refine ⟨by rw [look_concat, if_neg hn, h.look], ?_⟩
    have ha : node.annotated = true := h.annotated.2 fun he => hn (.inl he)
    simp [ha]

theorem eraseDups_concat (ids : List String) (id : String) : (ids ++ [id]).eraseDups =
    if id ∈ ids then ids.eraseDups else ids.eraseDups ++ [id] := by
  rw [List.eraseDups_append]
  by_cases h : id ∈ ids
  · simp [List.removeAll, h]
  · simp [List.removeAll, h, List.eraseDups_cons]

theorem appearances_append (id : String) (mentions more : List Mention) :
    appearances id (mentions ++ more) = appearances id mentions ++ appearances id more :=
  List.filterMap_append

theorem Shows.touched (m : Mention)
    (h : Shows node (appearances node.id mentions)) :
    Shows (touched m node) (appearances (touched m node).id (mentions ++ [m])) := by
  rw [touched_id, appearances_append]
  unfold Flow.touched
  cases ha : m.appearance with
  | none => simpa [appearances, ha] using h
  | some a =>
    by_cases hid : node.id = m.id
    · simpa [appearances, ha, hid] using h.annotate a
    · simpa [appearances, ha, hid, Ne.symm hid] using h

theorem Mention.node_shows (m : Mention) (place : Option Nat)
    (hn : m.id ∉ mentions.map (·.id)) :
    Shows (m.node place) (appearances (m.node place).id (mentions ++ [m])) := by
  have hnone : appearances m.id mentions = [] := by
    rw [appearances, List.filterMap_eq_nil_iff]
    intro other ho
    rw [if_neg fun he => hn (List.mem_map.2 ⟨other, ho, he⟩)]
  rw [Mention.node_id, appearances_append, hnone]
  unfold Mention.node
  cases ha : m.appearance with
  | none => exact ⟨by simp [appearances, ha, look], by simp [appearances, ha]⟩
  | some a =>
    refine ⟨?_, by simp [appearances, ha]⟩
    have hl := look_concat m.id [] a
    simpa [appearances, ha] using hl.symm

/-- What a graph knows of its nodes after mentions. -/
structure Told (mentions : List Mention) (graph : FlowGraph) : Prop where
  ordered : graph.nodes.map (·.id) = (mentions.map (·.id)).eraseDups
  shows : ∀ node ∈ graph.nodes, Shows node (appearances node.id mentions)

theorem Told.mem_ids (h : Told mentions graph) :
    id ∈ graph.nodes.map (·.id) ↔ id ∈ mentions.map (·.id) := by
  rw [h.ordered, List.mem_eraseDups]

theorem Told.mention (h : Told mentions graph) (place : Option Nat) (m : Mention) :
    Told (mentions ++ [m]) (mention place graph m) := by
  have hids := eraseDups_concat (mentions.map (·.id)) m.id
  by_cases hk : m.id ∈ graph.nodes.map (·.id)
  · rw [mention_touched place hk]
    rw [if_pos (h.mem_ids.1 hk), ← h.ordered] at hids
    refine ⟨?_, ?_⟩
    · rw [List.map_append, List.map_singleton, hids]
      simp
    · rw [List.forall_mem_map]
      exact fun node hn => (h.shows node hn).touched m
  · rw [mention_new place hk]
    rw [if_neg (h.mem_ids.not.1 hk), ← h.ordered] at hids
    refine ⟨?_, ?_⟩
    · rw [List.map_append, List.map_append, List.map_singleton, List.map_singleton, hids,
        Mention.node_id]
    · rw [List.forall_mem_append, List.forall_mem_singleton]
      refine ⟨fun node hn => ?_, m.node_shows place (h.mem_ids.not.1 hk)⟩
      have hne : m.id ≠ node.id := fun he => hk (he ▸ List.mem_map_of_mem hn)
      rw [appearances_append]
      simpa [appearances, hne] using h.shows node hn

theorem Told.foldl (h : Told mentions graph) (place : Option Nat) (more : List Mention) :
    Told (mentions ++ more) (more.foldl (Flow.mention place) graph) := by
  induction more generalizing mentions graph with
  | nil => simpa using h
  | cons m more ih => simpa using ih (h.mention place m)

theorem mem_ids_mention (place : Option Nat) (m : Mention) :
    id ∈ (mention place graph m).nodes.map (·.id) ↔ id ∈ graph.nodes.map (·.id) ∨ id = m.id := by
  by_cases hm : m.id ∈ graph.nodes.map (·.id)
  · rw [mention_touched place hm, List.map_map]
    simp only [Function.comp_def, touched_id]
    exact (or_iff_left_of_imp fun he => he ▸ hm).symm
  · rw [mention_new place hm, List.map_append, List.mem_append, List.map_singleton,
      Mention.node_id, List.mem_singleton]

theorem mem_ids_mentions (place : Option Nat) (mentions : List Mention) :
    id ∈ (mentions.foldl (mention place) graph).nodes.map (·.id) ↔
      id ∈ graph.nodes.map (·.id) ∨ id ∈ mentions.map (·.id) := by
  induction mentions generalizing graph with
  | nil => simp
  | cons m mentions ih =>
    rw [List.foldl_cons, ih, mem_ids_mention, List.map_cons, List.mem_cons, or_assoc]

/-- A mention puts a node into a group only if it is the first one of its id. -/
theorem mention_place (place : Option Nat) (m : Mention)
    (hn : node ∈ (mention place graph m).nodes) :
    (∃ old ∈ graph.nodes, old.id = node.id ∧ old.group = node.group) ∨
      node.id ∉ graph.nodes.map (·.id) ∧ node.group = place := by
  by_cases hk : m.id ∈ graph.nodes.map (·.id)
  · rw [mention_touched place hk] at hn
    obtain ⟨old, ho, rfl⟩ := List.mem_map.1 hn
    exact .inl ⟨old, ho, (touched_id m old).symm, (touched_group m old).symm⟩
  · rw [mention_new place hk, List.mem_append, List.mem_singleton] at hn
    rcases hn with hn | rfl
    · exact .inl ⟨node, hn, rfl, rfl⟩
    · exact .inr ⟨by rwa [Mention.node_id], Mention.node_group place m⟩

theorem mentions_place (place : Option Nat) (more : List Mention)
    (hn : node ∈ (more.foldl (mention place) graph).nodes) :
    (∃ old ∈ graph.nodes, old.id = node.id ∧ old.group = node.group) ∨
      node.id ∉ graph.nodes.map (·.id) ∧ node.group = place := by
  induction more generalizing graph with
  | nil => exact .inl ⟨node, hn, rfl, rfl⟩
  | cons m more ih =>
    rcases ih hn with ⟨old, ho, hid, hg⟩ | ⟨hid, hg⟩
    · have hp := mention_place place m ho
      rwa [hid, hg] at hp
    · exact .inr ⟨fun hk => hid ((mem_ids_mention place m).2 (.inl hk)), hg⟩

theorem openings_append (lines more : List Line) :
    openings (lines ++ more) = openings lines + openings more := by
  simp [openings]

theorem openings_singleton (line : Line) : openings [line] = line.heading?.toList.length := by
  rw [openings, List.filterMap_cons]
  cases line.heading? with
  | none => rfl
  | some heading => rfl

theorem closings_append (lines more : List Line) :
    closings (lines ++ more) = closings lines + closings more :=
  List.countP_append

/-- One more line opens the group itself, or comes after lines that leave it open. -/
theorem isOpen_concat_iff {depth g : Nat} :
    IsOpen (lines ++ [line]) depth g ↔
      (∃ id title, line = .opening id title ∧ openings lines = g ∧ depth = 0) ∨
      ∃ before, IsOpen lines before g ∧
        openings [line] + before = closings [line] + depth := by
  constructor
  · rintro ⟨outside, id, title, inside, he, rfl, hpart, hcount⟩
    rcases List.eq_nil_or_concat inside with rfl | ⟨inside, last, rfl⟩
    · obtain ⟨rfl, hl⟩ := List.append_inj' he rfl
      cases hl
      have hd : depth = 0 := by simpa [openings, closings] using hcount.symm
      exact .inl ⟨id, title, rfl, rfl, hd⟩
    · rw [List.concat_eq_append] at he hpart hcount
      rw [← List.cons_append, ← List.append_assoc] at he
      obtain ⟨rfl, hl⟩ := List.append_inj' he rfl
      cases hl
      rw [openings_append, closings_append] at hcount
      have hle := hpart inside (List.prefix_append _ _)
      refine .inr ⟨openings inside - closings inside, ⟨outside, id, title, inside, rfl, rfl,
        fun part hp => hpart part (hp.trans (List.prefix_append _ _)), by omega⟩, by omega⟩
  · rintro (⟨id, title, rfl, rfl, rfl⟩ |
      ⟨before, ⟨outside, id, title, inside, rfl, rfl, hpart, hcount⟩, hline⟩)
    · exact ⟨lines, id, title, [], rfl, rfl, by simp [openings, closings], rfl⟩
    · refine ⟨outside, id, title, inside ++ [line], by simp, rfl, fun part hp => ?_, ?_⟩
      · rcases List.prefix_concat_iff.1 hp with rfl | hp
        · rw [openings_append, closings_append]
          omega
        · exact hpart part hp
      · rw [openings_append, closings_append]
        omega

/-- The group around the lines that follow is the one on top. -/
theorem isOpen_add_iff (hcount : draft.graph.groups.length = openings lines)
    (hinside : ∀ depth g, draft.inside[depth]? = some g ↔ IsOpen lines depth g) (line : Line)
    (depth g : Nat) :
    (draft.add line).inside[depth]? = some g ↔ IsOpen (lines ++ [line]) depth g := by
  rw [isOpen_concat_iff]
  simp only [← hinside, openings_singleton]
  cases line with
  | close => simp [Draft.add, closings, Line.heading?, Nat.add_comm]
  | opening id title =>
    cases depth with
    | zero => simp [Draft.add, closings, Line.heading?, hcount]
    | succ depth => simp [Draft.add, closings, Line.heading?, Nat.add_comm 1]
  | statement s => simp [Draft.add, closings, Line.heading?]
  | other => simp [Draft.add, closings, Line.heading?]

theorem linesBefore_eq_self_iff : linesBefore id lines = lines ↔
    id ∉ (lines.flatMap Line.mentions).map (·.id) := by
  simp only [linesBefore, List.takeWhile_eq_self_iff, List.all_eq_true, bne_iff_ne, List.mem_map,
    List.mem_flatMap]
  constructor
  · rintro h ⟨m, ⟨line, hl, hm⟩, rfl⟩
    exact h line hl m hm rfl
  · intro h line hl m hm he
    exact h ⟨m, ⟨line, hl, hm⟩, he⟩

/-- The first mention of an id stays the first one. -/
theorem linesBefore_append (h : id ∈ (lines.flatMap Line.mentions).map (·.id))
    (more : List Line) :
    linesBefore id (lines ++ more) = linesBefore id lines := by
  have hne : linesBefore id lines ≠ lines := fun he => linesBefore_eq_self_iff.1 he h
  have hlen : (linesBefore id lines).length ≠ lines.length :=
    fun he => hne ((List.takeWhile_prefix _).eq_of_length he)
  exact List.takeWhile_append.trans (if_neg hlen)

theorem linesBefore_concat (hn : id ∉ (lines.flatMap Line.mentions).map (·.id))
    (h : id ∈ line.mentions.map (·.id)) : linesBefore id (lines ++ [line]) = lines := by
  have hall : line.mentions.all (·.id != id) = false := by
    obtain ⟨m, hm, he⟩ := List.mem_map.1 h
    exact List.all_eq_false.2 ⟨m, hm, by simpa using he⟩
  have hself := linesBefore_eq_self_iff.2 hn
  unfold linesBefore at hself ⊢
  rw [List.takeWhile_append, hself, if_pos rfl, List.takeWhile_cons_of_neg (by simp [hall]),
    List.append_nil]

theorem nodes_add (draft : Draft) (line : Line) : (draft.add line).graph.nodes =
    (line.mentions.foldl (mention draft.inside.head?) draft.graph).nodes := by
  cases line <;> rfl

theorem vacant_enrolled (place : Option Nat) (ids : List String) (groups : List Group) :
    (enrolled place ids groups).map Group.vacant = groups.map Group.vacant := by
  cases place with
  | none => rfl
  | some g =>
    refine List.ext_getElem? fun i => ?_
    simp only [List.getElem?_map, enrolled, List.getElem?_modify, Option.map_eq_map,
      Option.map_map]
    congr 1
    funext group
    by_cases h : g = i
    · simp [h, Group.vacant]
    · simp [h]

theorem vacant_mentions (place : Option Nat) (more : List Mention) (graph : FlowGraph) :
    (more.foldl (mention place) graph).groups.map Group.vacant = graph.groups.map Group.vacant := by
  induction more generalizing graph with
  | nil => rfl
  | cons m more ih =>
    rw [List.foldl_cons, ih]
    by_cases hk : m.id ∈ graph.nodes.map (·.id)
    · rw [mention_touched place hk]
    · rw [mention_new place hk]
      exact vacant_enrolled place [m.id] graph.groups

theorem vacant_add (draft : Draft) (line : Line) : (draft.add line).graph.groups.map Group.vacant =
    draft.graph.groups.map Group.vacant ++ line.heading?.toList.map fun (id, title) =>
      Group.ofHeading (draft.graph.groups.length + 1) id title := by
  cases line with
  | close => simp [Draft.add, Line.heading?]
  | opening id title => simp [Draft.add, Line.heading?, Group.ofHeading, Group.vacant]
  | statement s => simp [Draft.add, Line.heading?, vacant_mentions]
  | other => simp [Draft.add, Line.heading?]

/-- What a draft knows of the lines that were read. -/
structure Draft.Recalls (draft : Draft) (lines : List Line) : Prop where
  told : Told (lines.flatMap Line.mentions) draft.graph
  headed : draft.graph.groups.map Group.vacant =
    (lines.filterMap Line.heading?).mapIdx fun i (id, title) => Group.ofHeading (i + 1) id title
  inside : ∀ depth g, draft.inside[depth]? = some g ↔ IsOpen lines depth g
  group : ∀ node ∈ draft.graph.nodes, ∀ g,
    node.group = some g ↔ IsOpen (linesBefore node.id lines) 0 g

theorem Draft.Recalls.count (h : draft.Recalls lines) :
    draft.graph.groups.length = openings lines := by
  simpa [openings] using congrArg List.length h.headed

theorem Draft.Recalls.add (h : draft.Recalls lines) (line : Line) :
    (draft.add line).Recalls (lines ++ [line]) := by
  have hmentions : (lines ++ [line]).flatMap Line.mentions =
      lines.flatMap Line.mentions ++ line.mentions := by
    simp
  have htold := h.told.foldl draft.inside.head? line.mentions
  rw [← hmentions] at htold
  refine ⟨⟨?_, ?_⟩, ?_, isOpen_add_iff h.count h.inside line, ?_⟩
  · rw [nodes_add]
    exact htold.ordered
  · rw [nodes_add]
    exact htold.shows
  · have hcount : (lines.filterMap Line.heading?).length = draft.graph.groups.length :=
      h.count.symm
    rw [vacant_add, h.headed, List.filterMap_append, List.mapIdx_append, hcount]
    cases hl : line.heading? <;> simp [hl]
  · intro node hn g
    rw [nodes_add] at hn
    rcases mentions_place _ _ hn with ⟨old, ho, hid, hg⟩ | ⟨hnew, hg⟩
    · rw [← hid, linesBefore_append (h.told.mem_ids.1 (List.mem_map_of_mem ho)), ← hg]
      exact h.group old ho g
    · rw [h.told.mem_ids] at hnew
      have hm := htold.mem_ids.1 (List.mem_map_of_mem hn)
      rw [hmentions, List.map_append, List.mem_append] at hm
      rw [linesBefore_concat hnew (hm.resolve_left hnew), hg, ← h.inside, List.head?_eq_getElem?]

theorem Draft.Recalls.foldl (h : draft.Recalls lines) (more : List Line) :
    (more.foldl Draft.add draft).Recalls (lines ++ more) := by
  induction more generalizing draft lines with
  | nil => simpa using h
  | cons line more ih => simpa using ih (h.add line)

theorem recalls_nothing (direction : Direction) : Draft.Recalls { graph := { direction } } [] := by
  refine ⟨⟨rfl, by simp⟩, rfl, fun depth g => ?_, by simp⟩
  simp [IsOpen]

theorem appearances_ne_nil_iff :
    appearances id mentions ≠ [] ↔ ∃ m ∈ mentions, m.id = id ∧ m.appearance.isSome := by
  simp [appearances, List.filterMap_eq_nil_iff, Option.isSome_iff_ne_none]

end Flow

theorem Flow.Draft.Recalls.records {draft : Draft} {lines : List Line} (h : draft.Recalls lines) :
    draft.graph.Records lines :=
  ⟨h.headed, h.told.ordered, fun node hn => (h.told.shows node hn).look,
    fun node hn => (h.told.shows node hn).annotated.trans appearances_ne_nil_iff, h.group⟩

/-- Every flowchart that is read records its nodes as the lines of the text mention them. -/
theorem read_flowchart_records {text : List Char} {graph : FlowGraph}
    (h : Diagram.read text = .ok (.flow graph)) :
    graph.Records ((bodyLines text).map Line.ofText) := by
  obtain ⟨_, header, -, -, he⟩ := Diagram.exists_header h
  cases header with
  | flow direction =>
    cases he
    exact ((recalls_nothing direction).foldl _).records
  | sequence => cases he

/-- A flowchart with ends before and behind its groups, a group inside another, and one that is
never closed, in which nodes are mentioned before and after they get the look that they keep. -/
def revised : FlowGraph where
  direction := .leftToRight
  nodes := [⟨"a", "v", .rectangle, true, some 0⟩, ⟨"b", "y", .parallelogram, true, some 0⟩,
    ⟨"c", "w", .circle, true, some 1⟩, ⟨"d", "p", .rectangle, true, some 2⟩,
    ⟨"e", "e", .rectangle, false, some 2⟩]
  edges := [⟨"a", "b", none, .solid, .none, .arrow⟩, ⟨"b", "c", none, .solid, .none, .arrow⟩,
    ⟨"c", "a", none, .dotted, .none, .none⟩, ⟨"d", "e", none, .solid, .none, .arrow⟩,
    ⟨"e", "d", none, .solid, .none, .arrow⟩]
  groups := [⟨"one", "one", ["a", "b"]⟩, ⟨"two", "Inner", ["c"]⟩,
    ⟨"subgraph3", "subgraph3", ["d", "e"]⟩]

def revisedText : String :=
  "graph LR\nend\nsubgraph one\na --> b[x]\nsubgraph two [Inner]\nb>y] --> c[z]\nEND;\nend\n" ++
    "end\nc((w)) -.- a[v]\nb((u))\nsubgraph\nd[p] --> e --> d[q]"

theorem revised_records : Diagram.read revisedText.toList = .ok (.flow revised) ∧
    revised.Records ((bodyLines revisedText.toList).map Line.ofText) := by
  have h : Diagram.read revisedText.toList = .ok (.flow revised) := by decide +kernel
  exact ⟨h, read_flowchart_records h⟩

end Chartboard
