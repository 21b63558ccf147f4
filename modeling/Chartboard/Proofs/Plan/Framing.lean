import Chartboard.Proofs.Layout.Covering
import Chartboard.Proofs.Plan.Correspondence

namespace Chartboard

theorem getElem?_filterMap_eq_some {β γ : Type} {make : β → Option γ} {l : List β} {k : Nat}
    {y : γ} : (l.filterMap make)[k]? = some y ↔ ∃ (i : Nat) (x : β), l[i]? = some x ∧
      make x = some y ∧ k = (l.take i).countP fun x => (make x).isSome := by
  induction l generalizing k with
  | nil => simp
  | cons x l ih =>
    rw [← Nat.or_exists_add_one]
    cases hm : make x with
    | none => simp [hm, ih]
    | some z =>
      cases k with
      | zero => simp [hm]
      | succ k => simp [hm, ih]

/-- The rectangle of some size that has its middle at a point. -/
def Rect.about (x y width height : Rat) : Rect Rat :=
  ⟨x - half width, y - half height, width, height⟩

def FrameItem.rect (item : FrameItem Rat) : Rect Rat :=
  .about item.x item.y item.width item.height

def BoxItem.rect (item : BoxItem Rat Nat) : Rect Rat :=
  .about item.x item.y item.width item.height

def Group.isInhabited (group : Group) : Bool :=
  !group.members.isEmpty

namespace Frame

/-- How far a frame starts before its members; its title stands above them. -/
def lead : Axis → Rat
  | .horizontal => 40
  | .vertical => 70

/-- How far a frame ends after its members. -/
def trail : Rat := 40

/-- The rectangles of the members of a frame. -/
def contents (nodes : List (Rect Rat)) (frame : Frame Rat) : List (Rect Rat) :=
  frame.members.filterMap (nodes[·]?)

end Frame

namespace FlowGraph

/-- The number of frames before the one of a group. -/
def framesBefore (graph : FlowGraph) (g : Nat) : Nat :=
  (graph.groups.take g).countP Group.isInhabited

/-- A plan with a frame for each group that has a member, in which the boxes of the members stand. -/
structure Framed (graph : FlowGraph) (plan : Plan Rat) : Prop where
  titles : plan.frames.map (·.title) =
    (graph.groups.filter Group.isInhabited).map fun group => some group.title
  count : plan.boxes.length = graph.nodes.length
  parents : ∀ (place : Nat) (node : Node), graph.nodes[place]? = some node → ∃ box,
    plan.boxes[place]? = some box ∧ box.parent = node.group.map graph.framesBefore
  belongs : ∀ node ∈ graph.nodes, ∀ g, node.group = some g ↔
    ∃ group, graph.groups[g]? = some group ∧ node.id ∈ group.members
  room : ∀ box ∈ plan.boxes, ∀ k ∈ box.parent, ∃ frame, plan.frames[k]? = some frame ∧ ∀ axis,
    frame.rect.low axis + Frame.lead axis ≤ box.rect.low axis ∧
      box.rect.high axis + Frame.trail ≤ frame.rect.high axis
  tight : ∀ (k : Nat) (frame : FrameItem Rat), plan.frames[k]? = some frame → ∀ axis,
    (∃ box ∈ plan.boxes, box.parent = some k ∧
      frame.rect.low axis + Frame.lead axis = box.rect.low axis) ∧
    ∃ box ∈ plan.boxes, box.parent = some k ∧
      box.rect.high axis + Frame.trail = frame.rect.high axis

end FlowGraph

theorem Rect.about_center (r : Rect Rat) : about r.centerX r.centerY r.width r.height = r := by
  simp [about, centerX, centerY]

theorem Frame.rect_item (color : String) (frame : Frame Rat) :
    (frame.item color).rect = frame.rect :=
  Rect.about_center frame.rect

theorem BoxItem.Covers.rect_eq {box : BoxItem Rat Nat} {rect : Rect Rat} (h : box.Covers rect) :
    box.rect = rect := by
  rw [BoxItem.rect, h.x, h.y, h.width, h.height, Rect.about_center]

theorem Group.frame?_eq_some {graph : FlowGraph} {nodes : List (Rect Rat)} {group : Group}
    {frame : Frame Rat} (h : group.frame? graph nodes = some frame) :
    frame.title = group.title ∧ frame.members = group.members.filterMap graph.position? ∧
      ∃ inner, Rect.union (frame.contents nodes) = some inner ∧ ∀ axis,
        frame.rect.low axis + Frame.lead axis = inner.low axis ∧
          inner.high axis + Frame.trail = frame.rect.high axis := by
  obtain ⟨inner, hu, rfl⟩ := Option.map_eq_some_iff.1 h
  refine ⟨rfl, rfl, inner, hu, ?_⟩
  intro axis
  cases axis
  all_goals
    simp only [Rect.low, Rect.high, Rect.right, Rect.bottom, Frame.lead, Frame.trail, framePadding,
      frameTitle]
    constructor <;> push_cast <;> ring

namespace FlowGraph

variable {graph : FlowGraph}

theorem WellFormed.position?_eq_some_iff (h : graph.WellFormed) {id : String} {place : Nat} :
    graph.position? id = some place ↔ ∃ node, graph.nodes[place]? = some node ∧ node.id = id := by
  refine ⟨position?_eq_some, ?_⟩
  rintro ⟨node, hn, rfl⟩
  obtain ⟨hlt, rfl⟩ := List.getElem?_eq_some_iff.1 hn
  refine List.findIdx?_eq_some_iff_getElem.2 ⟨hlt, beq_self_eq_true _, ?_⟩
  intro other ho he
  have hne : graph.nodes[other].id ≠ graph.nodes[place].id :=
    List.pairwise_iff_getElem.1 (List.pairwise_map.1 h.distinct) other place _ hlt ho
  exact hne (beq_iff_eq.1 he)

section Parents
variable {α : Type}

theorem parent?_concat (frames : List (Frame α)) (frame : Frame α) (node : Nat) :
    parent? (frames ++ [frame]) node =
      if node ∈ frame.members then some frames.length else parent? frames node := by
  simp [parent?, List.zipIdx_append]

theorem parent?_eq_some {frames : List (Frame α)} {node k : Nat}
    (h : parent? frames node = some k) :
    ∃ frame, frames[k]? = some frame ∧ node ∈ frame.members := by
  induction frames using List.reverseRecOn with
  | nil => cases h
  | append_singleton frames last ih =>
    rw [parent?_concat] at h
    split at h
    · next hm =>
      cases h
      exact ⟨last, List.getElem?_concat_length, hm⟩
    · obtain ⟨frame, hk, hm⟩ := ih h
      exact ⟨frame, List.getElem?_append_left (parent?_lt h) ▸ hk, hm⟩

theorem parent?_eq_none {frames : List (Frame α)} {node : Nat} (h : parent? frames node = none) :
    ∀ frame ∈ frames, node ∉ frame.members := by
  induction frames using List.reverseRecOn with
  | nil => simp
  | append_singleton frames last ih =>
    rw [parent?_concat] at h
    split at h
    · cases h
    · next hm =>
      rw [List.forall_mem_append, List.forall_mem_singleton]
      exact ⟨ih h, hm⟩

end Parents

section Frames
variable {m : Metrics Rat} {place k : Nat} {node : Node}

/-- Exactly the groups that have members have a frame. -/
theorem WellFormed.isSome_frame? (h : graph.WellFormed) (m : Metrics Rat) {group : Group}
    (hg : group ∈ graph.groups) :
    group.isInhabited = (group.frame? graph (graph.layout m).nodes).isSome := by
  rw [Group.isInhabited, Group.frame?, Option.isSome_map]
  cases hm : group.members with
  | nil => rfl
  | cons id members =>
    -- The first member is a node, and a node has a rectangle to surround.
    have hid := (h.ordered group hg).subset (hm ▸ List.mem_cons_self)
    obtain ⟨node, hn, rfl⟩ := List.mem_map.1 hid
    obtain ⟨place, hp⟩ := List.mem_iff_getElem?.1 hn
    obtain ⟨rect, hr⟩ := exists_getElem? (graph.length_nodes_layout m) hp
    have hpos := h.position?_eq_some_iff.2 ⟨node, hp, rfl⟩
    simp only [List.filterMap_cons_some hpos, List.filterMap_cons_some hr]
    rfl

theorem WellFormed.titles_frames (h : graph.WellFormed) (m : Metrics Rat) :
    (graph.layout m).frames.map (some ·.title) =
      (graph.groups.filter Group.isInhabited).map (some ·.title) := by
  have hall : List.Forall₂
      (fun group frame => group.frame? graph (graph.layout m).nodes = some frame)
      (graph.groups.filter Group.isInhabited) (graph.layout m).frames :=
    forall₂_filter_filterMap fun group hg => h.isSome_frame? m hg
  have htitles : List.Forall₂ Eq ((graph.groups.filter Group.isInhabited).map (some ·.title))
      ((graph.layout m).frames.map (some ·.title)) := by
    rw [List.forall₂_map_left_iff, List.forall₂_map_right_iff]
    exact hall.imp fun group frame hf => congrArg some (Group.frame?_eq_some hf).1.symm
  rw [List.forall₂_eq_eq_eq] at htitles
  exact htitles.symm

/-- A frame and the group around whose members it stands. -/
theorem WellFormed.getElem?_frames (h : graph.WellFormed) {frame : Frame Rat} :
    (graph.layout m).frames[k]? = some frame ↔ ∃ g group, graph.groups[g]? = some group ∧
      group.frame? graph (graph.layout m).nodes = some frame ∧ k = graph.framesBefore g := by
  have hcount : ∀ g, (graph.groups.take g).countP Group.isInhabited = (graph.groups.take g).countP
      fun group => (group.frame? graph (graph.layout m).nodes).isSome := by
    intro g
    refine List.countP_congr fun group hg => ?_
    rw [h.isSome_frame? m (List.mem_of_mem_take hg)]
  simp only [framesBefore, hcount]
  exact getElem?_filterMap_eq_some

theorem WellFormed.mem_members_iff (h : graph.WellFormed) {group : Group} {frame : Frame Rat}
    (hf : group.frame? graph (graph.layout m).nodes = some frame)
    (hn : graph.nodes[place]? = some node) : place ∈ frame.members ↔ node.id ∈ group.members := by
  rw [(Group.frame?_eq_some hf).2.1, List.mem_filterMap]
  constructor
  · rintro ⟨id, hid, hp⟩
    obtain ⟨other, ho, rfl⟩ := position?_eq_some hp
    obtain rfl : node = other := Option.some.inj (hn.symm.trans ho)
    exact hid
  · intro hid
    exact ⟨node.id, hid, h.position?_eq_some_iff.2 ⟨node, hn, rfl⟩⟩

/-- The frame of a node is the one of its group. -/
theorem WellFormed.parent?_eq (h : graph.WellFormed) (m : Metrics Rat)
    (hn : graph.nodes[place]? = some node) :
    parent? (graph.layout m).frames place = node.group.map graph.framesBefore := by
  have hlisted := h.listed node (List.mem_of_getElem? hn)
  cases hp : parent? (graph.layout m).frames place with
  | some k =>
    obtain ⟨frame, hk, hm⟩ := parent?_eq_some hp
    obtain ⟨g, group, hg, hf, rfl⟩ := h.getElem?_frames.1 hk
    rw [(hlisted g).2 ⟨group, hg, (h.mem_members_iff hf hn).1 hm⟩, Option.map_some]
  | none =>
    cases hs : node.group with
    | none => rfl
    | some g =>
      obtain ⟨group, hg, hid⟩ := (hlisted g).1 hs
      have hin : group.isInhabited = true := by
        simpa [Group.isInhabited] using List.ne_nil_of_mem hid
      rw [h.isSome_frame? m (List.mem_of_getElem? hg)] at hin
      obtain ⟨frame, hf⟩ := Option.isSome_iff_exists.1 hin
      have hk := h.getElem?_frames.2 ⟨g, group, hg, hf, rfl⟩
      exact absurd ((h.mem_members_iff hf hn).2 hid) (parent?_eq_none hp frame
        (List.mem_of_getElem? hk))

theorem WellFormed.parent?_of_mem (h : graph.WellFormed) {frame : Frame Rat}
    (hk : (graph.layout m).frames[k]? = some frame) (hm : place ∈ frame.members) :
    ∃ node, graph.nodes[place]? = some node ∧
      parent? (graph.layout m).frames place = some k := by
  obtain ⟨g, group, hg, hf, rfl⟩ := h.getElem?_frames.1 hk
  obtain ⟨id, hid, hp⟩ := List.mem_filterMap.1 ((Group.frame?_eq_some hf).2.1 ▸ hm)
  obtain ⟨node, hn, rfl⟩ := position?_eq_some hp
  have hs := (h.listed node (List.mem_of_getElem? hn) g).2 ⟨group, hg, hid⟩
  exact ⟨node, hn, by rw [h.parent?_eq m hn, hs, Option.map_some]⟩

/-- What is in a frame is the rectangle of a box that has the frame as its parent. -/
theorem WellFormed.exists_box (h : graph.WellFormed) (stencils : Bool) {frame : Frame Rat}
    (hk : (graph.layout m).frames[k]? = some frame) {rect : Rect Rat}
    (hm : rect ∈ frame.contents (graph.layout m).nodes) :
    ∃ box ∈ (graph.plan stencils (graph.layout m)).boxes,
      box.parent = some k ∧ box.rect = rect := by
  obtain ⟨place, hp, hr⟩ := List.mem_filterMap.1 hm
  obtain ⟨node, hn, hparent⟩ := h.parent?_of_mem hk hp
  refine ⟨_, List.mem_of_getElem? (getElem?_boxes_plan hn hr), ?_, (box_covers ..).1.rect_eq⟩
  rw [(box_over ..).2.2, hparent]

theorem exists_of_mem_boxes {stencils : Bool} {item : BoxItem Rat Nat}
    (hm : item ∈ (graph.plan stencils (graph.layout m)).boxes) : ∃ place : Nat,
      (graph.layout m).nodes[place]? = some item.rect ∧
        item.parent = parent? (graph.layout m).frames place := by
  have hl := graph.length_nodes_layout m
  obtain ⟨place, hp⟩ := List.mem_iff_getElem?.1 hm
  obtain ⟨node, hn⟩ := exists_getElem? (length_boxes_plan hl stencils).symm hp
  obtain ⟨rect, hr⟩ := exists_getElem? hl hn
  rw [getElem?_boxes_plan hn hr] at hp
  cases hp
  exact ⟨place, (box_covers ..).1.rect_eq ▸ hr, (box_over ..).2.2⟩

/-- Boxes stand in the rectangle that their frame is made around. -/
theorem mem_contents {stencils : Bool} {item : BoxItem Rat Nat}
    (hm : item ∈ (graph.plan stencils (graph.layout m)).boxes) (hk : item.parent = some k) :
    ∃ frame, (graph.layout m).frames[k]? = some frame ∧
      item.rect ∈ frame.contents (graph.layout m).nodes := by
  obtain ⟨place, hr, hparent⟩ := exists_of_mem_boxes hm
  obtain ⟨frame, hf, hmem⟩ := parent?_eq_some (hparent.symm.trans hk)
  exact ⟨frame, hf, List.mem_filterMap.2 ⟨place, hmem, hr⟩⟩

/-- A frame ends in some distance around the rectangles of its members. -/
theorem exists_inner {frame : Frame Rat} (hf : frame ∈ (graph.layout m).frames) :
    ∃ inner, Rect.union (frame.contents (graph.layout m).nodes) = some inner ∧ ∀ axis,
      frame.rect.low axis + Frame.lead axis = inner.low axis ∧
        inner.high axis + Frame.trail = frame.rect.high axis := by
  obtain ⟨group, -, hmade⟩ := List.mem_filterMap.1 hf
  exact (Group.frame?_eq_some hmade).2.2

theorem getElem?_frames_plan {stencils : Bool} {layout : Layout Rat} {item : FrameItem Rat} :
    (graph.plan stencils layout).frames[k]? = some item ↔
      ∃ frame, layout.frames[k]? = some frame ∧ frame.item Palette.group = item := by
  rw [plan, List.getElem?_map, Option.map_eq_some_iff]

end Frames

theorem WellFormed.framed (h : graph.WellFormed) (stencils : Bool) (m : Metrics Rat) :
    graph.Framed (graph.plan stencils (graph.layout m)) := by
  have hl := graph.length_nodes_layout m
  refine ⟨?_, length_boxes_plan hl stencils, ?_, h.listed, ?_, ?_⟩
  · rw [← h.titles_frames m, plan, List.map_map]
    rfl
  · intro place node hn
    obtain ⟨rect, hr⟩ := exists_getElem? hl hn
    refine ⟨_, getElem?_boxes_plan hn hr, ?_⟩
    rw [(box_over ..).2.2, h.parent?_eq m hn]
  · intro item hi k hk
    obtain ⟨frame, hf, hin⟩ := mem_contents hi hk
    obtain ⟨inner, hu, hends⟩ := exists_inner (List.mem_of_getElem? hf)
    refine ⟨_, getElem?_frames_plan.2 ⟨frame, hf, rfl⟩, ?_⟩
    intro axis
    obtain ⟨hlow, hhigh⟩ := hends axis
    rw [Frame.rect_item, hlow, ← hhigh]
    exact ⟨(Rect.low_of_union hu axis).1 _ hin,
      add_le_add_left ((Rect.high_of_union hu axis).1 _ hin) Frame.trail⟩
  · intro k item hk axis
    obtain ⟨frame, hf, rfl⟩ := getElem?_frames_plan.1 hk
    obtain ⟨inner, hu, hends⟩ := exists_inner (List.mem_of_getElem? hf)
    obtain ⟨hlow, hhigh⟩ := hends axis
    obtain ⟨-, first, hfirst, hstart⟩ := Rect.low_of_union hu axis
    obtain ⟨-, last, hlast, hend⟩ := Rect.high_of_union hu axis
    obtain ⟨a, ha, hparent, har⟩ := h.exists_box stencils hf hfirst
    obtain ⟨b, hb, hother, hbr⟩ := h.exists_box stencils hf hlast
    rw [Frame.rect_item, hlow, ← hhigh]
    exact ⟨⟨a, ha, hparent, by rw [har, hstart]⟩, b, hb, hother, by rw [hbr, hend]⟩

end FlowGraph

/-- Whatever flowchart is read and whatever replaces the measures, the boxes of its plan stand in the
frames of their groups. -/
theorem boxes_stand_in_frames (stencils : Bool) (o : Overrides Rat) {text : List Char}
    {graph : FlowGraph} (h : Diagram.read text = .ok (.flow graph)) :
    ∃ plan, Plan.ofText stencils o text = .ok plan ∧ graph.Framed plan := by
  refine ⟨Diagram.planned stencils o (.flow graph), ?_, ?_⟩
  · rw [Plan.ofText, h]
    rfl
  · exact (read_flowchart_wellFormed h).framed stencils _

/-- A group without members before one that has another inside. -/
def nested : FlowGraph where
  direction := .leftToRight
  nodes := [("a", some 1), ("b", some 2), ("c", some 1), ("d", none)].map fun (id, group) =>
    ⟨id, id, .rectangle, false, group⟩
  edges := [("a", "b"), ("c", "d")].map fun (source, target) =>
    ⟨source, target, none, .solid, .none, .arrow⟩
  groups := [⟨"none", "none", []⟩, ⟨"outer", "outer", ["a", "c"]⟩, ⟨"inner", "inner", ["b"]⟩]

def nestedText : String :=
  "flowchart LR\nsubgraph none\nend\nsubgraph outer\na\nsubgraph inner\na --> b\nend\nc\nend\nc-->d"

def nested.overrides : Overrides Rat :=
  { nodeWidth := some 1 }

theorem nested_stands_in_frames :
    Diagram.read nestedText.toList = .ok (.flow nested) ∧
    ∃ plan, Plan.ofText true nested.overrides nestedText.toList = .ok plan ∧
      plan.frames.map (·.title) = [some "outer", some "inner"] ∧
      ∃ box frame, plan.boxes[1]? = some box ∧ box.parent = some 1 ∧
        plan.frames[1]? = some frame ∧
        frame.rect.low .vertical + 70 ≤ box.rect.low .vertical := by
  have hread : Diagram.read nestedText.toList = .ok (.flow nested) := by decide +kernel
  obtain ⟨plan, hplan, hf⟩ := boxes_stand_in_frames true nested.overrides hread
  obtain ⟨box, hb, hp⟩ := hf.parents 1 ⟨"b", "b", .rectangle, false, some 2⟩ rfl
  obtain ⟨frame, hframe, hroom⟩ := hf.room box (List.mem_of_getElem? hb) 1 hp
  exact ⟨hread, plan, hplan, hf.titles, box, frame, hb, hp, hframe, (hroom .vertical).1⟩

end Chartboard
