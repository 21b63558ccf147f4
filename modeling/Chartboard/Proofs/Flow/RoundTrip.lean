import Chartboard.Proofs.Diagram.Rows
import Chartboard.Proofs.Flow.Spelling

namespace Chartboard
open Chartboard.Text Chartboard.Flow

/-- A graph that its printed lines describe: every node and edge can be spelled, an id names one
node, and the nodes stand in the order in which the groups, and after them the nodes without a
group, are printed. -/
structure FlowGraph.Printable (graph : FlowGraph) : Prop where
  nodes : ∀ node ∈ graph.nodes, node.Printable
  distinct : (graph.nodes.map (·.id)).Nodup
  ordered : graph.nodes = graph.groups.zipIdx.flatMap (fun x => graph.nodesIn (some x.2)) ++
    graph.nodesIn none
  groups : ∀ group ∈ graph.groups, group.Printable
  members : ∀ x ∈ graph.groups.zipIdx, x.1.members = (graph.nodesIn (some x.2)).map (·.id)
  edges : ∀ edge ∈ graph.edges, edge.Printable
  joined : ∀ edge ∈ graph.edges,
    edge.source ∈ graph.nodes.map (·.id) ∧ edge.target ∈ graph.nodes.map (·.id)

theorem Flow.IsWord.verbatim {id rest : List Char} (h : IsWord id)
    (hl : ∀ c ∈ (id ++ rest).getLast?, isBlank c = false) (hr : '\n' ∉ rest) :
    Verbatim (id ++ rest) := by
  obtain ⟨c, r, rfl⟩ := List.exists_cons_of_ne_nil h.nonempty
  have hc := h.chars c List.mem_cons_self
  refine ⟨⟨c, rfl, h.not_blank c List.mem_cons_self, ?_⟩, hl, ?_⟩
  · rintro rfl
    exact absurd hc (by decide +kernel)
  · rw [List.mem_append, not_or]
    exact ⟨fun hm => absurd (h.not_blank _ hm) (by decide), hr⟩

theorem Node.Printable.verbatim {node : Node} (h : node.Printable) : Verbatim node.declaration := by
  have hb : '\n' ∉ (bracketOf node.shape).opener ∧ '\n' ∉ (bracketOf node.shape).closer := by
    cases node.shape <;> decide
  have hl := closer_last node.shape
    (node.id.toList ++ (bracketOf node.shape).opener ++ quoted node.label)
  rw [Node.declaration]
  rw [List.append_assoc, List.append_assoc] at hl ⊢
  refine h.word.verbatim (fun c hc => (hl c hc).2) ?_
  simp [quoted, hb.1, hb.2, h.unbroken]

theorem Edge.Printable.verbatim {edge : Edge} (h : edge.Printable)
    (hsource : IsWord edge.source.toList) (htarget : IsWord edge.target.toList) :
    Verbatim edge.line := by
  obtain ⟨op, ho⟩ := Option.isSome_iff_exists.1 h.drawn
  have hop : '\n' ∉ op := by
    generalize edge.stroke = stroke, edge.endCap = cap at ho
    cases stroke <;> cases cap <;> cases ho <;> decide
  have hb : '\n' ∉ barred edge.label := by
    cases hl : edge.label with
    | none => exact List.not_mem_nil
    | some label => simpa [barred, quoted] using h.unbroken label hl
  have ht : '\n' ∉ edge.target.toList := by
    intro hm
    exact absurd (htarget.not_blank _ hm) (by decide)
  have he : edge.line = edge.source.toList ++ (op ++ (barred edge.label ++
      ' ' :: edge.target.toList)) := by
    simp [Edge.line, ho, barred]
  have hl := htarget.last (edge.source.toList ++ (op ++ (barred edge.label ++ [' '])))
  rw [he]
  refine hsource.verbatim (fun c hc => (hl c (by simpa using hc)).2) ?_
  simp [hop, hb, ht]

theorem Group.Printable.verbatim {group : Group} (h : group.Printable) :
    Verbatim group.heading := by
  refine ⟨⟨'s', by rw [group.heading_eq]; rfl, by decide⟩, ?_, ?_⟩
  · rw [group.heading_last]
    rintro c ⟨⟩
    decide
  · simp [group.heading_eq, quoted, h.unbroken, h.unbrokenTitle]

namespace Flow

/-- The groups after nodes were mentioned for the first time inside one of them. -/
def enrolled (place : Option Nat) (ids : List String) (groups : List Group) : List Group :=
  match place with
  | some g => groups.modify g fun x => { x with members := x.members ++ ids }
  | none => groups

@[simp] theorem enrolled_nil (place : Option Nat) (groups : List Group) :
    enrolled place [] groups = groups := by
  cases place with
  | none => rfl
  | some g =>
    simp only [enrolled, List.append_nil]
    exact List.modify_id g groups

theorem enrolled_enrolled (place : Option Nat) (ids more : List String) (groups : List Group) :
    enrolled place more (enrolled place ids groups) = enrolled place (ids ++ more) groups := by
  cases place with
  | none => rfl
  | some g => simp [enrolled, List.modify_modify_eq, Function.comp_def]

theorem enrolled_last (groups : List Group) (group : Group) (ids : List String) :
    enrolled (some groups.length) ids (groups ++ [group]) =
      groups ++ [{ group with members := group.members ++ ids }] := by
  simp only [enrolled]
  induction groups with
  | nil => rfl
  | cons g groups ih =>
    rw [List.cons_append, List.length_cons, List.modify_succ_cons, ih, List.cons_append]

theorem mention_new {graph : FlowGraph} {m : Mention} (group : Option Nat)
    (hf : m.id ∉ graph.nodes.map (·.id)) : mention group graph m = { graph with
      nodes := graph.nodes ++ [m.node group]
      groups := enrolled group [m.id] graph.groups } := by
  have hn : graph.nodes.any (·.id == m.id) = false := by
    rw [List.any_eq_false]
    intro n hn he
    exact hf (List.mem_map.2 ⟨n, hn, by simpa using he⟩)
  simp only [mention, hn, Bool.false_eq_true, if_false]
  rfl

/-- A mention without brackets says nothing new about a known node. -/
theorem mention_known {graph : FlowGraph} {id : String} (group : Option Nat)
    (hk : id ∈ graph.nodes.map (·.id)) : mention group graph ⟨id, none⟩ = graph := by
  have hn : graph.nodes.any (·.id == id) = true := by
    obtain ⟨n, hn, rfl⟩ := List.mem_map.1 hk
    exact List.any_eq_true.2 ⟨n, hn, beq_self_eq_true n.id⟩
  simp [mention, hn]

/-- The first mention of a node that brackets describe. -/
theorem add_line {draft : Draft} {node : Node} (ha : node.annotated = true)
    (hg : node.group = draft.inside.head?) (hf : node.id ∉ draft.graph.nodes.map (·.id)) :
    draft.add node.line = { draft with graph := { draft.graph with
      nodes := draft.graph.nodes ++ [node]
      groups := enrolled draft.inside.head? [node.id] draft.graph.groups } } := by
  obtain ⟨id, label, shape, annotated, group⟩ := node
  simp only at ha hg
  subst ha hg
  have hm := mention_new (m := ⟨id, some ⟨label, shape⟩⟩) draft.inside.head? hf
  simp [Node.line, Draft.add, Statement.mentions, Statement.edges, edgesFrom, hm, Mention.node]

theorem foldl_lines (draft : Draft) {nodes : List Node} (ha : ∀ n ∈ nodes, n.annotated = true)
    (hg : ∀ n ∈ nodes, n.group = draft.inside.head?)
    (hd : ((draft.graph.nodes ++ nodes).map (·.id)).Nodup) :
    (nodes.map Node.line).foldl Draft.add draft = { draft with graph := { draft.graph with
      nodes := draft.graph.nodes ++ nodes
      groups := enrolled draft.inside.head? (nodes.map (·.id)) draft.graph.groups } } := by
  induction nodes generalizing draft with
  | nil => simp [enrolled_nil]
  | cons node nodes ih =>
    have hf : node.id ∉ draft.graph.nodes.map (·.id) := by
      intro hm
      rw [List.map_append, List.nodup_append] at hd
      exact hd.2.2 _ hm _ (by simp) rfl
    have hl := add_line (ha node List.mem_cons_self) (hg node List.mem_cons_self) hf
    rw [List.map_cons, List.foldl_cons, hl, ih]
    · simp [enrolled_enrolled]
    · exact fun n hn => ha n (List.mem_cons_of_mem node hn)
    · exact fun n hn => hg n (List.mem_cons_of_mem node hn)
    · simpa using hd

/-- The lines of a group as they are read. -/
def groupBlock (group : Group) (nodes : List Node) : List Line :=
  .opening group.id.toList group.title.toList :: nodes.map Node.line ++ [.close]

theorem ofHeading_toList {group : Group} (h : group.Printable) (number : Nat) :
    Group.ofHeading number group.id.toList group.title.toList = { group with members := [] } := by
  simp [Group.ofHeading, h.named, h.titled]

theorem foldl_groupBlock (graph : FlowGraph) {group : Group} {nodes : List Node}
    (hp : group.Printable) (hm : group.members = nodes.map (·.id))
    (ha : ∀ n ∈ nodes, n.annotated = true)
    (hg : ∀ n ∈ nodes, n.group = some graph.groups.length)
    (hd : ((graph.nodes ++ nodes).map (·.id)).Nodup) :
    (groupBlock group nodes).foldl Draft.add { graph } =
      { graph := { graph with
          nodes := graph.nodes ++ nodes, groups := graph.groups ++ [group] } } := by
  have ho : Draft.add { graph } (.opening group.id.toList group.title.toList) =
      { graph := { graph with groups := graph.groups ++ [{ group with members := [] }] }
        inside := [graph.groups.length] } := by
    simp [Draft.add, ofHeading_toList hp]
  have hl := foldl_lines (Draft.add { graph }
    (.opening group.id.toList group.title.toList)) ha (by simpa [ho] using hg)
    (by simpa [ho] using hd)
  rw [groupBlock, List.cons_append, List.foldl_cons, List.foldl_append, hl, ho]
  simp [Draft.add, enrolled_last, ← hm]

theorem foldl_groupBlocks (graph : FlowGraph) {groups : List Group} (nodesAt : Nat → List Node)
    (hp : ∀ group ∈ groups, group.Printable)
    (hm : ∀ x ∈ groups.zipIdx graph.groups.length, x.1.members = (nodesAt x.2).map (·.id))
    (ha : ∀ i, ∀ n ∈ nodesAt i, n.annotated = true) (hg : ∀ i, ∀ n ∈ nodesAt i, n.group = some i)
    (hd : ((graph.nodes ++ (groups.zipIdx graph.groups.length).flatMap
      (fun x => nodesAt x.2)).map (·.id)).Nodup) :
    ((groups.zipIdx graph.groups.length).flatMap fun x => groupBlock x.1 (nodesAt x.2)).foldl
      Draft.add { graph } = { graph := { graph with
        nodes := graph.nodes ++ (groups.zipIdx graph.groups.length).flatMap (fun x => nodesAt x.2)
        groups := graph.groups ++ groups } } := by
  -- The number of the next group is how many the graph has, so the graph is generalized with it.
  induction groups generalizing graph with
  | nil => simp
  | cons group groups ih =>
    simp only [List.zipIdx_cons, List.flatMap_cons, List.forall_mem_cons] at hp hm hd ⊢
    have hb := foldl_groupBlock graph hp.1 hm.1 (ha _) (hg _) (hd.sublist (by simp))
    have hr := ih { graph with
      nodes := graph.nodes ++ nodesAt graph.groups.length
      groups := graph.groups ++ [group] } hp.2 (by simpa using hm.2) (by simpa using hd)
    rw [List.foldl_append, hb]
    simpa using hr

theorem add_hop {graph : FlowGraph} {edge : Edge} (hs : edge.source ∈ graph.nodes.map (·.id))
    (ht : edge.target ∈ graph.nodes.map (·.id)) (hc : edge.startCap = .none) :
    Draft.add { graph } edge.hop = { graph := { graph with edges := graph.edges ++ [edge] } } := by
  obtain ⟨source, target, label, stroke, startCap, endCap⟩ := edge
  simp only at hs ht hc
  subst hc
  simp [Edge.hop, Draft.add, Statement.mentions, Statement.edges, edgesFrom, mention_known _ hs,
    mention_known _ ht]

theorem foldl_hops (graph : FlowGraph) {edges : List Edge}
    (hj : ∀ edge ∈ edges,
      edge.source ∈ graph.nodes.map (·.id) ∧ edge.target ∈ graph.nodes.map (·.id))
    (hc : ∀ edge ∈ edges, edge.startCap = .none) :
    (edges.map Edge.hop).foldl Draft.add { graph } =
      { graph := { graph with edges := graph.edges ++ edges } } := by
  induction edges generalizing graph with
  | nil => simp
  | cons edge edges ih =>
    rw [List.forall_mem_cons] at hj hc
    have hr := ih { graph with edges := graph.edges ++ [edge] } hj.2 hc.2
    rw [List.map_cons, List.foldl_cons, add_hop hj.1.1 hj.1.2 hc.1, hr, List.append_assoc]
    rfl

end Flow

namespace FlowGraph

def body (graph : FlowGraph) : List (List Char) :=
  graph.groups.zipIdx.flatMap (fun x => graph.groupLines x.2 x.1) ++
    ((graph.nodesIn none).map Node.declaration ++ graph.edges.map Edge.line)

theorem renderedLines_eq (graph : FlowGraph) :
    graph.renderedLines = graph.header :: graph.body := by
  simp [renderedLines, body]

theorem groupLines_eq (graph : FlowGraph) (place : Nat) (group : Group) :
    graph.groupLines place group = group.heading ::
      (graph.nodesIn (some place)).map Node.declaration ++ ["end".toList] := rfl

theorem mem_nodesIn {graph : FlowGraph} {place : Option Nat} {node : Node} :
    node ∈ graph.nodesIn place ↔ node ∈ graph.nodes ∧ node.group = place := by
  simp [nodesIn]

variable {graph : FlowGraph}

theorem Printable.isWord (h : graph.Printable) {id : String} (hid : id ∈ graph.nodes.map (·.id)) :
    IsWord id.toList := by
  obtain ⟨node, hn, rfl⟩ := List.mem_map.1 hid
  exact (h.nodes node hn).word

theorem Printable.map_declaration (h : graph.Printable) (place : Option Nat) :
    ((graph.nodesIn place).map Node.declaration).map Line.ofText =
      (graph.nodesIn place).map Node.line := by
  rw [List.map_map]
  apply List.map_congr_left
  intro node hn
  rw [Function.comp_apply, (h.nodes node (mem_nodesIn.1 hn).1).ofText]

theorem Printable.map_groupLines (h : graph.Printable) {x : Group × Nat}
    (hx : x ∈ graph.groups.zipIdx) : (graph.groupLines x.2 x.1).map Line.ofText =
      groupBlock x.1 (graph.nodesIn (some x.2)) := by
  have hp := h.groups x.1 (List.fst_mem_of_mem_zipIdx hx)
  rw [groupLines_eq, List.map_append, List.map_cons, hp.ofText, h.map_declaration, groupBlock,
    List.map_singleton, Line.ofText_end]

theorem Printable.map_body (h : graph.Printable) : graph.body.map Line.ofText =
    graph.groups.zipIdx.flatMap (fun x => groupBlock x.1 (graph.nodesIn (some x.2))) ++
      ((graph.nodesIn none).map Node.line ++ graph.edges.map Edge.hop) := by
  have hg : graph.groups.zipIdx.flatMap (fun x => (graph.groupLines x.2 x.1).map Line.ofText) =
      graph.groups.zipIdx.flatMap (fun x => groupBlock x.1 (graph.nodesIn (some x.2))) := by
    rw [List.flatMap_def, List.flatMap_def, List.map_congr_left fun x hx => h.map_groupLines hx]
  have he : (graph.edges.map Edge.line).map Line.ofText = graph.edges.map Edge.hop := by
    rw [List.map_map]
    apply List.map_congr_left
    intro edge hm
    obtain ⟨hs, ht⟩ := h.joined edge hm
    rw [Function.comp_apply, (h.edges edge hm).ofText (h.isWord hs) (h.isWord ht)]
  rw [body, List.map_append, List.map_append, List.map_flatMap, hg, h.map_declaration, he]

/-- The lines of a printed graph leave the graph itself. -/
theorem Printable.ofLines (h : graph.Printable) :
    FlowGraph.ofLines graph.direction graph.body = graph := by
  have ha : ∀ place, ∀ n ∈ graph.nodesIn place, n.annotated = true := by
    intro place n hn
    exact (h.nodes n (mem_nodesIn.1 hn).1).annotated
  have hd := h.ordered ▸ h.distinct
  have hg := foldl_groupBlocks { direction := graph.direction }
    (fun i => graph.nodesIn (some i)) h.groups h.members (fun i => ha (some i))
    (fun i n hn => (mem_nodesIn.1 hn).2) (hd.sublist (by simp))
  have hl := foldl_lines { graph := { graph with
    nodes := graph.groups.zipIdx.flatMap (fun x => graph.nodesIn (some x.2)), edges := [] } }
    (ha none) (fun n hn => (mem_nodesIn.1 hn).2) hd
  have he := foldl_hops { graph with edges := [] } h.joined
    fun edge hm => (h.edges edge hm).uncapped
  simp only [List.nil_append, List.length_nil] at hg he
  rw [← h.ordered] at hl
  rw [FlowGraph.ofLines, h.map_body, List.foldl_append, List.foldl_append, hg, hl]
  exact congrArg Draft.graph he

theorem header_eq (graph : FlowGraph) :
    (graph.direction = .topToBottom ∧ graph.header = "flowchart TB".toList) ∨
      (graph.direction = .leftToRight ∧ graph.header = "flowchart LR".toList) := by
  unfold header
  cases graph.direction with
  | topToBottom => exact .inl ⟨rfl, rfl⟩
  | leftToRight => exact .inr ⟨rfl, rfl⟩

theorem read?_header (graph : FlowGraph) :
    Header.read? graph.header = some (.flow graph.direction) := by
  obtain ⟨hd, hh⟩ | ⟨hd, hh⟩ := graph.header_eq
  · rw [hd, hh]
    decide +kernel
  · rw [hd, hh]
    decide +kernel

theorem verbatim_header (graph : FlowGraph) : Verbatim graph.header := by
  obtain ⟨-, hh⟩ | ⟨-, hh⟩ := graph.header_eq
  · rw [hh]
    decide
  · rw [hh]
    decide

theorem Printable.verbatim (h : graph.Printable) :
    ∀ row ∈ graph.header :: graph.body, Verbatim row := by
  have hd : ∀ place, ∀ row ∈ (graph.nodesIn place).map Node.declaration, Verbatim row := by
    intro place row hr
    obtain ⟨node, hn, rfl⟩ := List.mem_map.1 hr
    exact (h.nodes node (mem_nodesIn.1 hn).1).verbatim
  intro row hr
  simp only [body, List.mem_cons, List.mem_append, List.mem_flatMap] at hr
  obtain rfl | ⟨x, hx, hr⟩ | hr | hr := hr
  · exact graph.verbatim_header
  · rw [groupLines_eq, List.mem_append, List.mem_cons, List.mem_singleton] at hr
    obtain (rfl | hr) | rfl := hr
    · exact (h.groups x.1 (List.fst_mem_of_mem_zipIdx hx)).verbatim
    · exact hd (some x.2) row hr
    · decide
  · exact hd none row hr
  · obtain ⟨edge, hm, rfl⟩ := List.mem_map.1 hr
    obtain ⟨hs, ht⟩ := h.joined edge hm
    exact (h.edges edge hm).verbatim (h.isWord hs) (h.isWord ht)

end FlowGraph

/-- A printed flowchart is read back as it was. -/
theorem read_rendered_flowchart (graph : FlowGraph) (h : graph.Printable)
    (hl : WithinLimits graph.render) : Diagram.read graph.render = .ok (.flow graph) := by
  rw [FlowGraph.render, graph.renderedLines_eq] at hl ⊢
  rw [Diagram.read_verbatim hl h.verbatim graph.read?_header, Diagram.ofLines, h.ofLines]

/-- A decision inside a group, and an edge that leads out of it. The labels hold operators,
brackets, quotes and keywords. -/
def crossing : FlowGraph where
  direction := .leftToRight
  nodes := [⟨"end", "a --> b[\"c\"]", .decision, true, some 0⟩,
    ⟨"b_2", "end", .cylinder, true, none⟩]
  edges := [⟨"end", "b_2", some "x -.-> y", .dotted, .none, .arrow⟩]
  groups := [⟨"first group", "subgraph [one]", ["end"]⟩]

theorem crossing_printable : crossing.Printable := by
  refine ⟨?_, by decide, by decide, ?_, by decide, ?_, by decide⟩
  · simp only [crossing, List.forall_mem_cons]
    refine ⟨?_, ?_, by simp⟩ <;>
      exact ⟨by decide +kernel, by decide, by decide, by decide, by decide⟩
  · simp only [crossing, List.forall_mem_cons]
    exact ⟨⟨by decide, by decide, by decide, by decide, by decide, by decide⟩, by simp⟩
  · simp only [crossing, List.forall_mem_cons]
    refine ⟨⟨by decide, by decide, ?_, ?_⟩, by simp⟩
    · rintro label ⟨⟩
      exact ⟨by decide, by decide, by decide⟩
    · rintro label ⟨⟩
      decide

theorem read_rendered_crossing : Diagram.read crossing.render = .ok (.flow crossing) :=
  read_rendered_flowchart crossing crossing_printable
    ⟨by decide +kernel, by decide +kernel, by decide +kernel⟩

end Chartboard
