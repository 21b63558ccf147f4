import Chartboard.Canvas.Board
import Chartboard.Plan.Basic
import Chartboard.Proofs.Layout.Sizes

namespace Chartboard

variable {α : Type}

theorem FlowGraph.parent?_lt {frames : List (Frame α)} {node frame : Nat}
    (h : parent? frames node = some frame) : frame < frames.length := by
  have hall : ∀ place ∈ parent? frames node, place < frames.length := by
    refine List.foldlRecOn (motive := fun found => ∀ place ∈ found, place < frames.length)
      frames.zipIdx _ (by simp) ?_
    rintro found hf ⟨other, i⟩ hm place hp
    dsimp only at hp
    split at hp
    · cases hp
      exact List.snd_lt_of_mem_zipIdx hm
    · exact hf place hp
  exact hall frame h

theorem SequenceDiagram.length_circles (crossings : List (Crossing α)) :
    (crossings.flatMap fun c => [c.source, c.target]).length = 2 * crossings.length := by
  simp [List.length_flatMap, Nat.mul_comm]

/-- A plan whose items refer to items of the same plan. -/
structure Plan.Linked (plan : Plan α) : Prop where
  parents : ∀ item ∈ plan.boxes, ∀ frame ∈ item.parent, frame < plan.frames.length
  ends : ∀ line ∈ plan.lines,
    line.source < plan.boxes.length ∧ line.target < plan.boxes.length

variable [Coordinate α]

/-- A plan whose items a board takes, if it takes them in the order of the plan. -/
structure Plan.Sound (plan : Plan α) : Prop where
  frames : ∀ item ∈ plan.frames, Board.isUsableSize item.width item.height = true
  boxes : ∀ item ∈ plan.boxes, Board.isUsableSize item.width item.height = true
  parents : ∀ item ∈ plan.boxes, ∀ frame ∈ item.parent, frame < plan.frames.length
  ends : ∀ line ∈ plan.lines,
    line.source < plan.boxes.length ∧ line.target < plan.boxes.length

namespace FlowGraph

theorem position?_lt {graph : FlowGraph} {id : String} {place : Nat}
    (h : graph.position? id = some place) : place < graph.nodes.length :=
  (List.findIdx?_eq_some_iff_getElem.1 h).1

theorem ends?_lt {graph : FlowGraph} {edge : Edge} {ends : Nat × Nat}
    (h : graph.ends? edge = some ends) :
    ends.1 < graph.nodes.length ∧ ends.2 < graph.nodes.length := by
  simp only [ends?, Option.bind_eq_bind, Option.bind_eq_some_iff, Option.pure_def,
    Option.some.injEq] at h
  obtain ⟨source, hs, target, ht, rfl⟩ := h
  exact ⟨position?_lt hs, position?_lt ht⟩

/-- A stencil differs from a basic shape in its colours only. -/
theorem box_over (stencils : Bool) (node : Node) (parent : Option Nat) (rect : Rect α) :
    (box stencils node parent rect).width = rect.width ∧
      (box stencils node parent rect).height = rect.height ∧
      (box stencils node parent rect).parent = parent := by
  unfold box
  cases stencils <;> exact ⟨rfl, rfl, rfl⟩

end FlowGraph

theorem isUsableSize_of_solid {rect : Rect Rat} (h : rect.Solid) :
    Board.isUsableSize rect.width rect.height = true := by
  simp [Board.isUsableSize, isFinite, isPositive, h.width, h.height]

theorem FlowGraph.length_boxes_plan {layout : Layout α} {graph : FlowGraph}
    (hn : layout.nodes.length = graph.nodes.length) (stencils : Bool) :
    (graph.plan stencils layout).boxes.length = graph.nodes.length := by
  simp [plan, hn]

theorem FlowGraph.plan_linked {layout : Layout α} {graph : FlowGraph}
    (hn : layout.nodes.length = graph.nodes.length) (stencils : Bool) :
    (graph.plan stencils layout).Linked where
  parents item hm frame hf := by
    obtain ⟨⟨⟨node, rect⟩, i⟩, hz, rfl⟩ := List.mem_map.1 hm
    rw [(box_over stencils node (parent? layout.frames i) rect).2.2] at hf
    rw [plan, List.length_map]
    exact parent?_lt hf
  ends line hm := by
    obtain ⟨edge, -, he⟩ := List.mem_filterMap.1 hm
    obtain ⟨ends, hends, rfl⟩ := Option.map_eq_some_iff.1 he
    rw [length_boxes_plan hn]
    exact ends?_lt hends

theorem FlowGraph.plan_sound {layout : Layout Rat} (hs : layout.Solid) {graph : FlowGraph}
    (hn : layout.nodes.length = graph.nodes.length) (stencils : Bool) :
    (graph.plan stencils layout).Sound where
  frames item hm := by
    obtain ⟨frame, hf, rfl⟩ := List.mem_map.1 hm
    exact isUsableSize_of_solid (hs.frames frame hf)
  boxes item hm := by
    obtain ⟨⟨⟨node, rect⟩, i⟩, hz, rfl⟩ := List.mem_map.1 hm
    obtain ⟨hw, hh, -⟩ := box_over stencils node (parent? layout.frames i) rect
    rw [hw, hh]
    exact isUsableSize_of_solid (hs.nodes rect (List.of_mem_zip (List.fst_mem_of_mem_zipIdx hz)).2)
  parents := (plan_linked hn stencils).parents
  ends := (plan_linked hn stencils).ends

namespace SequenceDiagram

/-- The circles of a message stand on lifelines. -/
theorem crossing?_over {layout : Layout α} {diagram : SequenceDiagram} {message : Message} {row : α}
    {c : Crossing α} (h : diagram.crossing? layout message row = some c) :
    ∀ box ∈ [c.source, c.target], box.width = (anchorSize : α) ∧ box.height = (anchorSize : α) ∧
      ∀ frame ∈ box.parent, frame < layout.frames.length := by
  simp only [crossing?, Option.bind_eq_bind, Option.bind_eq_some_iff, Option.pure_def,
    Option.some.injEq] at h
  obtain ⟨⟨source, target⟩, -, first, hf, second, hs, rfl⟩ := h
  have hanchor : ∀ {frame : Frame α} {lifeline : Nat}, layout.frames[lifeline]? = some frame →
      ∀ place ∈ (anchor frame row lifeline).parent, place < layout.frames.length := by
    rintro frame lifeline hl _ ⟨⟩
    exact (List.getElem?_eq_some_iff.1 hl).1
  simp only [List.mem_cons, List.not_mem_nil, or_false, forall_eq_or_imp, forall_eq]
  exact ⟨⟨rfl, rfl, hanchor hf⟩, rfl, rfl, hanchor hs⟩

theorem header_over (p : Participant) (lifeline : Nat) (rect : Rect α) :
    (header p lifeline rect).width = rect.width ∧ (header p lifeline rect).height = rect.height ∧
      (header p lifeline rect).parent = some lifeline := by
  unfold header
  split <;> exact ⟨rfl, rfl, rfl⟩

/-- All circles of the messages have one size and stand on lifelines. -/
theorem circles_over {layout : Layout α} {diagram : SequenceDiagram} :
    ∀ box ∈ (diagram.crossings layout).flatMap fun c => [c.source, c.target],
      box.width = (anchorSize : α) ∧ box.height = (anchorSize : α) ∧
        ∀ frame ∈ box.parent, frame < layout.frames.length := by
  intro box hm
  obtain ⟨c, hc, hb⟩ := List.mem_flatMap.1 hm
  obtain ⟨⟨message, row⟩, -, he⟩ := List.mem_filterMap.1 hc
  exact crossing?_over he box hb

theorem plan_linked {layout : Layout α} {diagram : SequenceDiagram}
    (hf : layout.frames.length = diagram.participants.length) : (diagram.plan layout).Linked where
  parents item hm := by
    rw [plan, List.length_map]
    rcases List.mem_append.1 hm with hm | hm
    · obtain ⟨⟨⟨p, rect⟩, i⟩, hz, rfl⟩ := List.mem_map.1 hm
      rw [(header_over p i rect).2.2]
      rintro _ ⟨⟩
      have hi := List.snd_lt_of_mem_zipIdx hz
      rw [List.length_zip] at hi
      omega
    · exact (circles_over item hm).2.2
  ends line hm := by
    -- The circles of the message at a place are the pair of boxes at that place after the heads.
    obtain ⟨⟨c, i⟩, hz, rfl⟩ := List.mem_map.1 hm
    have hi := List.snd_lt_of_mem_zipIdx hz
    simp only [plan, Crossing.line, List.length_append, length_circles]
    omega

theorem plan_sound {layout : Layout Rat} (hs : layout.Solid) {diagram : SequenceDiagram}
    (hf : layout.frames.length = diagram.participants.length) : (diagram.plan layout).Sound where
  frames item hm := by
    obtain ⟨frame, hframe, rfl⟩ := List.mem_map.1 hm
    exact isUsableSize_of_solid (hs.frames frame hframe)
  boxes item hm := by
    rcases List.mem_append.1 hm with hm | hm
    · obtain ⟨⟨⟨p, rect⟩, i⟩, hz, rfl⟩ := List.mem_map.1 hm
      obtain ⟨hw, hh, -⟩ := header_over p i rect
      rw [hw, hh]
      exact isUsableSize_of_solid
        (hs.nodes rect (List.of_mem_zip (List.fst_mem_of_mem_zipIdx hz)).2)
    · obtain ⟨hw, hh, -⟩ := circles_over item hm
      rw [hw, hh]
      decide
  parents := (plan_linked hf).parents
  ends := (plan_linked hf).ends

end SequenceDiagram

/-- Whatever is drawn and in whatever measures, no reference leads out of the plan. -/
theorem Diagram.plan_linked (stencils : Bool) (m : Metrics α) (diagram : Diagram) :
    (diagram.plan stencils (diagram.layout m)).Linked := by
  cases diagram with
  | flow graph => exact FlowGraph.plan_linked (graph.length_nodes_layout m) stencils
  | sequence diagram => exact SequenceDiagram.plan_linked (diagram.length_frames_layout m)

/-- Whatever is drawn and whatever replaces the measures, the plan is sound. -/
theorem Diagram.planned_sound (stencils : Bool) (o : Overrides Rat) (diagram : Diagram) :
    (diagram.planned stencils o).Sound := by
  have hs := diagram.layout_solid (diagram.metrics_usable o)
  cases diagram with
  | flow graph => exact FlowGraph.plan_sound hs (graph.length_nodes_layout _) stencils
  | sequence diagram => exact SequenceDiagram.plan_sound hs (diagram.length_frames_layout _)

/-- What is planned for a text is planned for the diagram that it draws. -/
theorem Plan.exists_diagram {stencils : Bool} {o : Overrides α} {text : List Char} {plan : Plan α}
    (h : Plan.ofText stencils o text = .ok plan) :
    ∃ diagram, Diagram.read text = .ok diagram ∧ plan = diagram.planned stencils o := by
  unfold Plan.ofText at h
  cases hd : Diagram.read text with
  | error why =>
    rw [hd] at h
    cases h
  | ok diagram =>
    rw [hd] at h
    cases h
    exact ⟨diagram, rfl, rfl⟩

end Chartboard
