import Chartboard.Proofs.Flow.RoundTrip
import Mathlib.Data.List.Nodup
import Mathlib.Data.List.TakeWhile

namespace Chartboard
open Chartboard.Text Chartboard.Flow

/-- Every id names one node, edges lead from node to node along operators, and the groups list the
nodes that are in them. -/
structure FlowGraph.WellFormed (graph : FlowGraph) : Prop where
  distinct : (graph.nodes.map (·.id)).Nodup
  named : ∀ node ∈ graph.nodes, IsWord node.id.toList
  plain : ∀ node ∈ graph.nodes, node.annotated = false →
    node.label = node.id ∧ node.shape = .rectangle
  joined : ∀ edge ∈ graph.edges,
    edge.source ∈ graph.nodes.map (·.id) ∧ edge.target ∈ graph.nodes.map (·.id)
  drawn : ∀ edge ∈ graph.edges,
    edge.startCap = .none ∧ (operatorOf? edge.stroke edge.endCap).isSome
  listed : ∀ node ∈ graph.nodes, ∀ g, node.group = some g ↔
    ∃ group, graph.groups[g]? = some group ∧ node.id ∈ group.members
  ordered : ∀ group ∈ graph.groups, group.members.Sublist (graph.nodes.map (·.id))
  unrepeated : ∀ group ∈ graph.groups, group.members.Nodup
  separate : graph.groups.Pairwise fun group other => group.members.Disjoint other.members

namespace Flow

variable {cs rest : List Char}

theorem dotted?_drawn {cap : Cap} (h : dotted? cs = some (cap, rest)) :
    (operatorOf? .dotted cap).isSome := by
  unfold dotted? at h
  split at h
  · split at h
    · cases h
      rfl
    · cases h
      rfl
    · simp at h
  · simp at h

theorem letter?_cap {cap : Cap} (h : letter? cs = some (cap, rest)) :
    cap = .filledCircle ∨ cap = .cross := by
  unfold letter? at h
  split at h
  · split at h
    · cases h
      exact .inl rfl
    · simp at h
  · split at h
    · cases h
      exact .inr rfl
    · simp at h
  · simp at h

inductive Fills : Stroke → Char → Prop where
  | solid : Fills .solid '-'
  | thick : Fills .thick '='

theorem Fills.drawn {stroke : Stroke} {fill : Char} (hf : Fills stroke fill) :
    (operatorOf? stroke .arrow).isSome ∧ (operatorOf? stroke .none).isSome ∧
      (fill = '-' → (operatorOf? stroke .filledCircle).isSome ∧
        (operatorOf? stroke .cross).isSome) := by
  cases hf with
  | solid => decide
  | thick => decide

theorem closed?_drawn {stroke : Stroke} {fill : Char} {cap : Cap} (hf : Fills stroke fill)
    (h : closed? fill cs = some (cap, rest)) : (operatorOf? stroke cap).isSome := by
  obtain ⟨ha, hn, hl⟩ := hf.drawn
  unfold closed? at h
  split at h
  · split at h
    · cases h
      exact ha
    · simp at h
  · split at h
    · cases h
      exact hn
    · split at h
      · next hd =>
        obtain ⟨hc, hx⟩ := hl hd.2
        rcases letter?_cap h with rfl | rfl
        · exact hc
        · exact hx
      · simp at h

/-- A label inside an operator changes neither its stroke nor its cap. -/
theorem stroked?_drawn {stroke : Stroke} {fill : Char} {link : Link} (hf : Fills stroke fill)
    (h : stroked? stroke fill cs = some (link, rest)) :
    (operatorOf? link.stroke link.cap).isSome := by
  fun_induction stroked? stroke fill cs generalizing link rest with
  | case1 cs cap r hc =>
    cases h
    exact closed?_drawn hf hc
  | case2 => simp at h
  | case3 cs _ label r _ _ ih =>
    obtain ⟨⟨inner, after⟩, hr, he⟩ := Option.map_eq_some_iff.1 h
    have hd : (operatorOf? inner.stroke inner.cap).isSome := ih hr
    cases he
    exact hd

theorem operator?_drawn {link : Link} (h : operator? cs = some (link, rest)) :
    (operatorOf? link.stroke link.cap).isSome := by
  unfold operator? at h
  split at h
  · next hd =>
    cases h
    exact dotted?_drawn hd
  · split at h
    · exact stroked?_drawn .solid h
    · exact stroked?_drawn .thick h
    · simp at h

theorem Link.read?_drawn {link : Link} (h : Link.read? cs = some (link, rest)) :
    (operatorOf? link.stroke link.cap).isSome := by
  simp only [Link.read?, Option.bind_eq_bind, Option.bind_eq_some_iff, Prod.exists] at h
  obtain ⟨inner, after, ho, h⟩ := h
  have hd := operator?_drawn ho
  split at h
  · simp only [Option.bind_eq_some_iff, Prod.exists, Option.pure_def, Option.some.injEq,
      Prod.mk.injEq] at h
    obtain ⟨text, end', -, rfl, -⟩ := h
    exact hd
  · cases h
    exact hd

theorem Mention.read?_word {m : Mention} (h : Mention.read? cs = some (m, rest)) :
    IsWord m.id.toList := by
  have hw : cs.takeWhile isWordChar ≠ [] → IsWord (cs.takeWhile isWordChar) :=
    fun hne => ⟨hne, fun c hc => List.mem_takeWhile_imp hc⟩
  simp only [Mention.read?] at h
  split at h
  · simp at h
  · next hne =>
    have hw := hw fun he => hne (List.isEmpty_iff.2 he)
    split at h
    · obtain ⟨⟨a, r⟩, -, he⟩ := Option.map_eq_some_iff.1 h
      cases he
      simpa using hw
    · cases h
      simpa using hw

/-- A chain of which every part is spelled as a line spells it. -/
structure Statement.Legible (s : Statement) : Prop where
  words : ∀ m ∈ s.mentions, IsWord m.id.toList
  drawn : ∀ hop ∈ s.hops, (operatorOf? hop.1.stroke hop.1.cap).isSome

/-- The links of a chain and the mentions they lead to are read behind its start. -/
theorem hops?_read {hops : List (Link × Mention)} (h : hops? cs = some hops) :
    ∀ hop ∈ hops, ∃ behind place rest, place <:+ cs ∧
      Link.read? behind = some (hop.1, place) ∧ Mention.read? place = some (hop.2, rest) := by
  fun_induction hops? cs generalizing hops with
  | case1 => simp_all
  | case2 => simp at h
  | case3 => simp at h
  | case4 cs _ link place hl m rest hm _ _ ih =>
    obtain ⟨more, hr, rfl⟩ := Option.map_eq_some_iff.1 h
    have hplace : place <:+ cs := (Link.read?_suffix hl).1
    rw [List.forall_mem_cons]
    refine ⟨⟨cs, place, rest, hplace, hl, hm⟩, fun hop hh => ?_⟩
    obtain ⟨behind, later, after, hs, hread⟩ := ih hr hop hh
    exact ⟨behind, later, after, hs.trans ((Mention.read?_suffix hm).1.trans hplace), hread⟩

theorem Statement.read?_mention {s : Statement} (h : Statement.read? cs = some s) :
    ∀ m ∈ s.mentions, ∃ place rest, place <:+ cs ∧ Mention.read? place = some (m, rest) := by
  obtain ⟨r, hf, hh⟩ := Statement.read?_eq_some_iff.1 h
  rw [Statement.mentions, List.forall_mem_cons, List.forall_mem_map]
  refine ⟨⟨cs, r, List.suffix_refl cs, hf⟩, fun hop hm => ?_⟩
  obtain ⟨-, place, rest, hs, -, hread⟩ := hops?_read hh hop hm
  exact ⟨place, rest, hs.trans (Mention.read?_suffix hf).1, hread⟩

theorem Statement.read?_link {s : Statement} (h : Statement.read? cs = some s) :
    ∀ hop ∈ s.hops, ∃ behind place, Link.read? behind = some (hop.1, place) := by
  obtain ⟨r, -, hh⟩ := Statement.read?_eq_some_iff.1 h
  intro hop hm
  obtain ⟨behind, place, -, -, hl, -⟩ := hops?_read hh hop hm
  exact ⟨behind, place, hl⟩

theorem Statement.read?_legible {s : Statement} (h : Statement.read? cs = some s) : s.Legible := by
  refine ⟨fun m hm => ?_, fun hop hm => ?_⟩
  · obtain ⟨place, rest, -, hread⟩ := Statement.read?_mention h m hm
    exact Mention.read?_word hread
  · obtain ⟨behind, place, hl⟩ := Statement.read?_link h hop hm
    exact Link.read?_drawn hl

def Line.Legible : Line → Prop
  | .statement s => s.Legible
  | _ => True

theorem Line.ofText_legible (cs : List Char) : (Line.ofText cs).Legible := by
  unfold Line.ofText
  simp only
  split
  · trivial
  · split
    · trivial
    · split
      · next hs => exact Statement.read?_legible hs
      · trivial

theorem mem_edgesFrom {source : String} {hops : List (Link × Mention)} {edge : Edge}
    (h : edge ∈ edgesFrom source hops) : edge.source ∈ source :: hops.map (·.2.id) ∧
      ∃ hop ∈ hops, edge.target = hop.2.id ∧ edge.label = hop.1.label ∧ edge.startCap = .none ∧
        edge.stroke = hop.1.stroke ∧ edge.endCap = hop.1.cap := by
  induction hops generalizing source with
  | nil => cases h
  | cons hop hops ih =>
    rcases List.mem_cons.1 h with rfl | h
    · exact ⟨List.mem_cons_self, hop, List.mem_cons_self, rfl, rfl, rfl, rfl, rfl⟩
    · obtain ⟨hs, other, hm, ht⟩ := ih h
      exact ⟨List.mem_cons_of_mem _ hs, other, List.mem_cons_of_mem _ hm, ht⟩

/-- The edges of a chain lead from mention to mention. -/
theorem Statement.Legible.edges {s : Statement} (h : s.Legible) : ∀ edge ∈ s.edges,
    (edge.source ∈ s.mentions.map (·.id) ∧ edge.target ∈ s.mentions.map (·.id)) ∧
      edge.startCap = .none ∧ (operatorOf? edge.stroke edge.endCap).isSome := by
  intro edge hm
  obtain ⟨hs, hop, hh, ht, -, hc, hk, he⟩ := mem_edgesFrom hm
  rw [Statement.mentions, List.map_cons, List.map_map]
  refine ⟨⟨hs, List.mem_cons_of_mem _ ?_⟩, hc, ?_⟩
  · rw [ht]
    exact List.mem_map.2 ⟨hop, hh, rfl⟩
  · rw [hk, he]
    exact h.drawn hop hh

@[simp] theorem Mention.node_id (place : Option Nat) (m : Mention) : (m.node place).id = m.id := by
  unfold Mention.node
  split <;> rfl

@[simp] theorem Mention.node_group (place : Option Nat) (m : Mention) :
    (m.node place).group = place := by
  unfold Mention.node
  split <;> rfl

/-- A known node after one more mention. -/
def touched (m : Mention) (node : Node) : Node :=
  match m.appearance with
  | some a => if node.id == m.id then annotate a node else node
  | none => node

theorem annotate_eq (a : Appearance) (node : Node) : annotate a node = node ∨
    annotate a node = { node with label := a.label, shape := a.shape, annotated := true } := by
  unfold annotate
  split
  · exact .inr rfl
  · exact .inl rfl

/-- Of a known node a mention changes the label and the shape at most. -/
theorem touched_eq (m : Mention) (node : Node) : touched m node = node ∨ ∃ a : Appearance,
    touched m node = { node with label := a.label, shape := a.shape, annotated := true } := by
  unfold touched
  split
  · next a _ =>
    split
    · exact (annotate_eq a node).imp_right fun h => ⟨a, h⟩
    · exact .inl rfl
  · exact .inl rfl

@[simp] theorem touched_id (m : Mention) (node : Node) : (touched m node).id = node.id := by
  obtain he | ⟨a, he⟩ := touched_eq m node <;> rw [he]

@[simp] theorem touched_group (m : Mention) (node : Node) :
    (touched m node).group = node.group := by
  obtain he | ⟨a, he⟩ := touched_eq m node <;> rw [he]

theorem getElem?_enrolled {place : Option Nat} {ids : List String} {groups : List Group} {g : Nat}
    {group : Group} (h : (enrolled place ids groups)[g]? = some group) :
    ∃ old, groups[g]? = some old ∧
      group.members = old.members ++ if place = some g then ids else [] := by
  cases place with
  | none => exact ⟨group, h, by simp⟩
  | some i =>
    rw [enrolled, List.getElem?_modify] at h
    obtain ⟨old, ho, he⟩ := Option.map_eq_some_iff.1 h
    refine ⟨old, ho, ?_⟩
    by_cases hi : i = g
    · simp [← he, hi]
    · simp [← he, hi]

theorem length_enrolled (place : Option Nat) (ids : List String) (groups : List Group) :
    (enrolled place ids groups).length = groups.length := by
  cases place with
  | none => rfl
  | some i => exact List.length_modify ..

theorem mention_touched {graph : FlowGraph} {m : Mention} (place : Option Nat)
    (hk : m.id ∈ graph.nodes.map (·.id)) :
    mention place graph m = { graph with nodes := graph.nodes.map (touched m) } := by
  have hn : graph.nodes.any (·.id == m.id) = true := by
    obtain ⟨n, hn, he⟩ := List.mem_map.1 hk
    exact List.any_eq_true.2 ⟨n, hn, beq_iff_eq.2 he⟩
  unfold mention touched
  rw [if_pos hn]
  cases m.appearance with
  | some a => rfl
  | none => simp

end Flow

/-- The nodes of a graph and its groups know of one another. -/
structure FlowGraph.Coherent (graph : FlowGraph) : Prop where
  distinct : (graph.nodes.map (·.id)).Nodup
  named : ∀ node ∈ graph.nodes, IsWord node.id.toList
  plain : ∀ node ∈ graph.nodes, node.annotated = false →
    node.label = node.id ∧ node.shape = .rectangle
  grouped : ∀ node ∈ graph.nodes, ∀ g ∈ node.group, g < graph.groups.length
  members : ∀ g group, graph.groups[g]? = some group →
    group.members = (graph.nodesIn (some g)).map (·.id)

namespace FlowGraph.Coherent

variable {graph : FlowGraph} {m : Mention} {place : Option Nat}

theorem known_mention (h : graph.Coherent) (m : Mention) :
    FlowGraph.Coherent { graph with nodes := graph.nodes.map (touched m) } := by
  refine ⟨?_, ?_, ?_, ?_, ?_⟩
  · simpa [Function.comp_def] using h.distinct
  · simpa using h.named
  · rw [List.forall_mem_map]
    intro node hn
    obtain he | ⟨a, he⟩ := touched_eq m node
    · rw [he]
      exact h.plain node hn
    · simp [he]
  · simpa using h.grouped
  · intro g group hg
    rw [h.members g group hg, nodesIn, nodesIn, List.filter_map, List.map_map]
    simp [Function.comp_def]

/-- The first mention of an id inside the innermost group. -/
theorem first_mention (h : graph.Coherent) (hw : IsWord m.id.toList)
    (hp : ∀ g ∈ place, g < graph.groups.length) (hn : m.id ∉ graph.nodes.map (·.id)) :
    FlowGraph.Coherent { graph with
      nodes := graph.nodes ++ [m.node place]
      groups := enrolled place [m.id] graph.groups } := by
  refine ⟨?_, ?_, ?_, ?_, ?_⟩
  · rw [List.map_append, List.map_singleton, Mention.node_id, ← List.concat_eq_append,
      List.nodup_concat]
    exact ⟨hn, h.distinct⟩
  · rw [List.forall_mem_append, List.forall_mem_singleton, Mention.node_id]
    exact ⟨h.named, hw⟩
  · rw [List.forall_mem_append, List.forall_mem_singleton]
    refine ⟨h.plain, ?_⟩
    unfold Mention.node
    split
    · simp
    · simp
  · rw [List.forall_mem_append, List.forall_mem_singleton, Mention.node_group, length_enrolled]
    exact ⟨h.grouped, hp⟩
  · intro g group hg
    obtain ⟨old, ho, he⟩ := getElem?_enrolled hg
    rw [he, h.members g old ho, nodesIn, nodesIn, List.filter_append, List.map_append]
    rw [List.filter_singleton, Mention.node_group]
    by_cases hs : place = some g
    · simp [hs]
    · simp [hs, beq_eq_false_iff_ne.2 hs]

/-- The group that a heading opens has no members yet, as no node is in a group that comes later. -/
theorem opened (h : graph.Coherent) {group : Group} (he : group.members = []) :
    FlowGraph.Coherent { graph with groups := graph.groups ++ [group] } := by
  refine ⟨h.distinct, h.named, h.plain, ?_, ?_⟩
  · intro node hn g hg
    rw [List.length_append]
    exact Nat.lt_add_right 1 (h.grouped node hn g hg)
  · intro g other hg
    rw [List.getElem?_append] at hg
    split at hg
    · exact h.members g other hg
    · obtain ⟨hlt, rfl⟩ := List.getElem?_eq_some_iff.1 hg
      rw [List.getElem_singleton, he, nodesIn, eq_comm, List.map_eq_nil_iff, List.filter_eq_nil_iff]
      intro node hn hs
      have := h.grouped node hn g (beq_iff_eq.1 hs)
      omega

end FlowGraph.Coherent

namespace Flow

variable {graph : FlowGraph}

/-- A graph after mentions: it knows what it knew before, and has the same edges and as many groups.
-/
structure Mentioned (graph : FlowGraph) (ids : List String) (after : FlowGraph) : Prop where
  coherent : after.Coherent
  known : graph.nodes.map (·.id) ++ ids ⊆ after.nodes.map (·.id)
  edges : after.edges = graph.edges
  groups : after.groups.length = graph.groups.length

theorem mention_mentioned {m : Mention} (place : Option Nat) (h : graph.Coherent)
    (hw : IsWord m.id.toList) (hp : ∀ g ∈ place, g < graph.groups.length) :
    Mentioned graph [m.id] (mention place graph m) := by
  by_cases hk : m.id ∈ graph.nodes.map (·.id)
  · rw [mention_touched place hk]
    refine ⟨h.known_mention m, ?_, rfl, rfl⟩
    rw [List.append_subset, List.map_map]
    simpa [Function.comp_def] using hk
  · rw [mention_new place hk]
    refine ⟨h.first_mention hw hp hk, ?_, rfl, length_enrolled ..⟩
    rw [List.map_append, List.map_singleton, Mention.node_id]
    exact List.Subset.refl _

theorem mentions_mentioned {mentions : List Mention} (place : Option Nat) (h : graph.Coherent)
    (hw : ∀ m ∈ mentions, IsWord m.id.toList) (hp : ∀ g ∈ place, g < graph.groups.length) :
    Mentioned graph (mentions.map (·.id)) (mentions.foldl (mention place) graph) := by
  induction mentions generalizing graph with
  | nil => exact ⟨h, by simp, rfl, rfl⟩
  | cons m mentions ih =>
    rw [List.forall_mem_cons] at hw
    have hm := mention_mentioned place h hw.1 hp
    have hr := ih hm.coherent hw.2 (hm.groups ▸ hp)
    refine ⟨hr.coherent, ?_, hr.edges.trans hm.edges, hr.groups.trans hm.groups⟩
    obtain ⟨hold, hnew⟩ := List.append_subset.1 hm.known
    obtain ⟨hall, hrest⟩ := List.append_subset.1 hr.known
    rw [List.map_cons, ← List.singleton_append, ← List.append_assoc]
    exact List.append_subset.2
      ⟨List.append_subset.2 ⟨List.Subset.trans hold hall, List.Subset.trans hnew hall⟩, hrest⟩

/-- A draft in which the open groups are groups of the graph, and edges lead between its nodes. -/
structure Draft.Coherent (draft : Draft) : Prop where
  graph : draft.graph.Coherent
  inside : ∀ g ∈ draft.inside, g < draft.graph.groups.length
  joined : ∀ edge ∈ draft.graph.edges, edge.source ∈ draft.graph.nodes.map (·.id) ∧
    edge.target ∈ draft.graph.nodes.map (·.id)
  drawn : ∀ edge ∈ draft.graph.edges,
    edge.startCap = .none ∧ (operatorOf? edge.stroke edge.endCap).isSome

theorem Draft.Coherent.add {draft : Draft} {line : Line} (h : draft.Coherent) (hl : line.Legible) :
    (draft.add line).Coherent := by
  cases line with
  | close => exact ⟨h.graph, fun g hg => h.inside g (List.mem_of_mem_tail hg), h.joined, h.drawn⟩
  | opening id title =>
    refine ⟨h.graph.opened rfl, ?_, h.joined, h.drawn⟩
    intro g hg
    simp only [Draft.add, List.length_append, List.length_singleton]
    rcases List.mem_cons.1 hg with rfl | hg
    · exact Nat.lt_succ_self _
    · exact Nat.lt_succ_of_lt (h.inside g hg)
  | statement s =>
    have hm := mentions_mentioned draft.inside.head? h.graph hl.words
      fun g hg => h.inside g (List.mem_of_mem_head? hg)
    obtain ⟨hold, hnew⟩ := List.append_subset.1 hm.known
    refine ⟨⟨hm.coherent.distinct, hm.coherent.named, hm.coherent.plain, hm.coherent.grouped,
      hm.coherent.members⟩, ?_, ?_, ?_⟩
    · intro g hg
      exact hm.groups ▸ h.inside g hg
    · simp only [Draft.add, hm.edges, List.forall_mem_append]
      constructor
      · intro edge he
        exact ⟨hold (h.joined edge he).1, hold (h.joined edge he).2⟩
      · intro edge he
        obtain ⟨⟨hs, ht⟩, -⟩ := hl.edges edge he
        exact ⟨hnew hs, hnew ht⟩
    · simp only [Draft.add, hm.edges, List.forall_mem_append]
      exact ⟨h.drawn, fun edge he => (hl.edges edge he).2⟩
  | other => exact h

theorem Draft.Coherent.foldl {draft : Draft} {lines : List Line} (h : draft.Coherent)
    (hl : ∀ line ∈ lines, line.Legible) : (lines.foldl Draft.add draft).Coherent := by
  induction lines generalizing draft with
  | nil => exact h
  | cons line lines ih =>
    rw [List.forall_mem_cons] at hl
    exact ih (h.add hl.1) hl.2

end Flow

theorem FlowGraph.Coherent.mem_members {graph : FlowGraph} (h : graph.Coherent) {g : Nat}
    {group : Group} (hg : graph.groups[g]? = some group) {id : String} :
    id ∈ group.members ↔ ∃ node ∈ graph.nodes, node.group = some g ∧ node.id = id := by
  rw [h.members g group hg, List.mem_map]
  simp only [mem_nodesIn, and_assoc]

theorem FlowGraph.Coherent.eq_of_id {graph : FlowGraph} (h : graph.Coherent) {node other : Node}
    (hn : node ∈ graph.nodes) (ho : other ∈ graph.nodes) (he : node.id = other.id) : node = other :=
  List.inj_on_of_nodup_map h.distinct hn ho he

theorem Flow.Draft.Coherent.wellFormed {draft : Draft} (h : draft.Coherent) :
    draft.graph.WellFormed := by
  have hc := h.graph
  have hsub : ∀ group ∈ draft.graph.groups,
      group.members.Sublist (draft.graph.nodes.map (·.id)) := by
    intro group hm
    obtain ⟨g, hg⟩ := List.mem_iff_getElem?.1 hm
    rw [hc.members g group hg]
    exact List.filter_sublist.map _
  refine ⟨hc.distinct, hc.named, hc.plain, h.joined, h.drawn, ?_, hsub,
    fun group hm => hc.distinct.sublist (hsub group hm), ?_⟩
  · intro node hn g
    constructor
    · intro hg
      have hlt := hc.grouped node hn g hg
      refine ⟨_, List.getElem?_eq_getElem hlt, ?_⟩
      exact (hc.mem_members (List.getElem?_eq_getElem hlt)).2 ⟨node, hn, hg, rfl⟩
    · rintro ⟨group, hg, hm⟩
      obtain ⟨other, ho, hs, hid⟩ := (hc.mem_members hg).1 hm
      rw [← hc.eq_of_id ho hn hid, hs]
  · rw [List.pairwise_iff_getElem]
    intro i j hi hj hlt id ha hb
    obtain ⟨node, hn, hs, rfl⟩ := (hc.mem_members (List.getElem?_eq_getElem hi)).1 ha
    obtain ⟨other, ho, ht, hid⟩ := (hc.mem_members (List.getElem?_eq_getElem hj)).1 hb
    rw [hc.eq_of_id ho hn hid, hs] at ht
    exact absurd (Option.some.inj ht) (Nat.ne_of_lt hlt)

theorem FlowGraph.ofLines_coherent (direction : Direction) (lines : List (List Char)) :
    ((lines.map Line.ofText).foldl Draft.add { graph := { direction } }).Coherent := by
  refine Draft.Coherent.foldl ⟨⟨?_, ?_, ?_, ?_, ?_⟩, ?_, ?_, ?_⟩ ?_
  all_goals simp [Line.ofText_legible]

/-- A text that is read is read from the lines after a header. -/
theorem Diagram.exists_lines {text : List Char} {diagram : Diagram}
    (h : Diagram.read text = .ok diagram) : ∃ header lines, diagram = .ofLines header lines := by
  obtain ⟨_, header, -, -, he⟩ := Diagram.exists_header h
  exact ⟨header, bodyLines text, he⟩

/-- Every flowchart that is read is well-formed, however its groups are opened and closed. -/
theorem read_flowchart_wellFormed {text : List Char} {graph : FlowGraph}
    (h : Diagram.read text = .ok (.flow graph)) : graph.WellFormed := by
  obtain ⟨header, lines, he⟩ := Diagram.exists_lines h
  cases header with
  | flow direction =>
    cases he
    exact (FlowGraph.ofLines_coherent direction lines).wellFormed
  | sequence => cases he

/-- A flowchart with an end before any group, a group inside another, and one that is never closed.
-/
def straying : FlowGraph where
  direction := .topToBottom
  nodes := [⟨"a", "a", .rectangle, false, some 0⟩, ⟨"b", "y", .circle, true, some 0⟩,
    ⟨"c", "c", .rectangle, false, some 1⟩, ⟨"d", "d", .rectangle, false, some 0⟩]
  edges := [⟨"a", "b", none, .solid, .none, .arrow⟩, ⟨"c", "a", none, .dotted, .none, .none⟩,
    ⟨"b", "d", some "z", .thick, .none, .arrow⟩]
  groups := [⟨"one", "one", ["a", "b", "d"]⟩, ⟨"two", "Inner", ["c"]⟩]

def strayingText : String :=
  "flowchart\nend\nsubgraph one\na --> b[x]\nsubgraph two [Inner]\nc -.- a\nend\nb((y)) == z ==> d"

theorem straying_wellFormed :
    Diagram.read strayingText.toList = .ok (.flow straying) ∧ straying.WellFormed := by
  have h : Diagram.read strayingText.toList = .ok (.flow straying) := by decide +kernel
  exact ⟨h, read_flowchart_wellFormed h⟩

end Chartboard
