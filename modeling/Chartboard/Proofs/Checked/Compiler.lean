import Chartboard.Proofs.Checked.Flow
import Chartboard.Proofs.Checked.Layout
import Chartboard.Proofs.Checked.Sequence
import Chartboard.Proofs.Plan.Sound

namespace Chartboard.Checked
open Chartboard.Text

def ofLines (header : Header) (lines : List (List Char)) : Option Diagram :=
  match header with
  | .flow direction => (flowOfLines direction lines).map .flow
  | .sequence => (sequenceOfLines lines).map .sequence

def ofText (text : List Char) : Option (Except Refusal Diagram) :=
  let text := trim text
  let rows := lines text
  if text.isEmpty then
    some (.error .empty)
  else if limits.lines < rows.length then
    some (.error (.tooManyLines rows.length))
  else
    match longLine? rows with
    | some (number, length) => some (.error (.lineTooLong number length))
    | none =>
      let said := meaningfulLines rows
      let first := said.head?.getD []
      match Header.read? first with
      | some header => (ofLines header said.tail).map .ok
      | none => some (.error (.badHeader (Header.preview first) (Header.hint? text)))

def read (text : List Char) : Option (Except Refusal Diagram) :=
  let size := byteSize text
  if limits.bytes < size then some (.error (.tooLarge size)) else ofText text

variable {α : Type} [Coordinate α]

/-- The frame of each node, where a later frame takes a node from an earlier one. -/
def parents (count : Nat) (frames : List (Frame α)) : Option (List (Option Nat)) :=
  (frames.zipIdx.flatMap fun (frame, i) => frame.members.map (·, i)).foldlM
    (fun parents (member, i) => modify? parents member fun _ => some i) (List.replicate count none)

def planFlow (stencils : Bool) (layout : Layout α) (graph : FlowGraph) : Option (Plan α) := do
  let parents ← parents graph.nodes.length layout.frames
  return { graph.plan stencils layout with
    boxes := ((graph.nodes.zip layout.nodes).zip parents).map fun ((node, rect), parent) =>
      FlowGraph.box stencils node parent rect }

/-- A plan with the circles of one more message as its next two boxes, and the line between them. -/
def extend (plan : Plan α) (c : SequenceDiagram.Crossing α) : Plan α :=
  { plan with
    boxes := plan.boxes ++ [c.source, c.target]
    lines := plan.lines ++ [c.line plan.boxes.length] }

def cross (layout : Layout α) (diagram : SequenceDiagram) (plan : Plan α) (message : Message)
    (row : α) : Option (Plan α) :=
  match diagram.ends? message with
  | none => some plan
  | some (source, target) => do
    return extend plan {
      message
      source := SequenceDiagram.anchor (← layout.frames[source]?) row source
      target := SequenceDiagram.anchor (← layout.frames[target]?) row target }

def planSequence (layout : Layout α) (diagram : SequenceDiagram) : Option (Plan α) :=
  (diagram.messages.zip layout.rows).foldlM
    (fun plan (message, row) => cross layout diagram plan message row)
    { diagram.plan layout with
      boxes := (diagram.participants.zip layout.nodes).zipIdx.map fun ((p, rect), i) =>
        SequenceDiagram.header p i rect
      lines := [] }

def plan (stencils : Bool) (layout : Layout α) : Diagram → Option (Plan α)
  | .flow graph => planFlow stencils layout graph
  | .sequence diagram => planSequence layout diagram

/-- The plan for a diagram with measures of its own. -/
def drawn (stencils : Bool) (m : Metrics α) (diagram : Diagram) : Option (Plan α) := do
  plan stencils (← layout m diagram) diagram

def compile (stencils : Bool) (o : Overrides α) (text : List Char) :
    Option (Except Refusal (Plan α)) := do
  match ← read text with
  | .error why => return .error why
  | .ok diagram => return .ok (← drawn stencils (diagram.metrics o) diagram)

theorem ofLines_eq (header : Header) (lines : List (List Char)) :
    ofLines header lines = some (Diagram.ofLines header lines) := by
  cases header with
  | flow direction =>
    rw [ofLines, flowOfLines_eq]
    rfl
  | sequence =>
    rw [ofLines, sequenceOfLines_eq]
    rfl

theorem ofText_eq (text : List Char) : ofText text = some (Diagram.ofText text) := by
  unfold ofText Diagram.ofText
  simp only [ofLines_eq, Option.map_some]
  split
  · rfl
  · split
    · rfl
    · cases longLine? (lines (trim text)) with
      | some long => rfl
      | none =>
        dsimp only
        cases Header.read? ((meaningfulLines (lines (trim text))).head?.getD []) <;> rfl

theorem read_eq (text : List Char) : read text = some (Diagram.read text) := by
  unfold read Diagram.read
  simp only [ofText_eq]
  split <;> rfl

omit [Coordinate α] in
theorem parents_eq {count : Nat} {frames : List (Frame α)}
    (h : ∀ frame ∈ frames, ∀ member ∈ frame.members, member < count) :
    parents count frames = some ((List.range count).map (FlowGraph.parent? frames)) := by
  have hframe : ∀ (node : Nat) (found : Option Nat) (frame : Frame α) (i : Nat),
      (frame.members.map (·, i)).foldl (fun found c => if c.1 = node then some c.2 else found)
        found = if frame.members.contains node then some i else found := by
    intro node found frame i
    have hagree : frame.members.foldl (fun found c => if c = node then some i else found) found =
        if node ∈ frame.members.map id then some i else found :=
      foldl_agree (fun _ _ _ => rfl) found
    rw [List.foldl_map, hagree]
    simp
  have hlt : ∀ c ∈ frames.zipIdx.flatMap fun (frame, i) => frame.members.map (·, i),
      c.1 < count := by
    intro c hc
    obtain ⟨⟨frame, i⟩, hf, hm⟩ := List.mem_flatMap.1 hc
    obtain ⟨member, hmember, rfl⟩ := List.mem_map.1 hm
    exact h frame (List.fst_mem_of_mem_zipIdx hf) member hmember
  rw [parents, foldlM_modify?_replicate Prod.fst _ _ hlt]
  refine congrArg some (List.map_congr_left fun node _ => ?_)
  rw [List.foldl_flatMap]
  simp only [hframe]
  rfl

theorem frames_lt (m : Metrics α) (graph : FlowGraph) :
    ∀ frame ∈ (graph.layout m).frames, ∀ member ∈ frame.members, member < graph.nodes.length := by
  intro frame hf member hm
  obtain ⟨group, -, hg⟩ := List.mem_filterMap.1 hf
  obtain ⟨inner, -, rfl⟩ := Option.map_eq_some_iff.1 hg
  obtain ⟨id, -, hp⟩ := List.mem_filterMap.1 hm
  exact FlowGraph.position?_lt hp

theorem planFlow_eq (stencils : Bool) (m : Metrics α) (graph : FlowGraph) :
    planFlow stencils (graph.layout m) graph = some (graph.plan stencils (graph.layout m)) := by
  rw [planFlow, parents_eq (frames_lt m graph)]
  have hlen : (graph.nodes.zip (graph.layout m).nodes).length = graph.nodes.length := by
    rw [List.length_zip, graph.length_nodes_layout, Nat.min_self]
  have hboxes : ((graph.nodes.zip (graph.layout m).nodes).zip ((List.range graph.nodes.length).map
      (FlowGraph.parent? (graph.layout m).frames))).map (fun ((node, rect), parent) =>
        FlowGraph.box stencils node parent rect) = (graph.plan stencils (graph.layout m)).boxes := by
    rw [FlowGraph.plan, List.zipIdx_eq_zip_range', hlen, ← List.range_eq_range', List.zip_map_right, List.map_map]
    rfl
  simp only [Option.bind_eq_bind, Option.bind_some, Option.pure_def, hboxes]

theorem ends?_lt {diagram : SequenceDiagram} {message : Message} {ends : Nat × Nat}
    (h : diagram.ends? message = some ends) :
    ends.1 < diagram.participants.length ∧ ends.2 < diagram.participants.length := by
  simp only [SequenceDiagram.ends?, Option.bind_eq_bind, Option.bind_eq_some_iff, Option.pure_def,
    Option.some.injEq] at h
  obtain ⟨source, hs, target, ht, rfl⟩ := h
  exact ⟨(List.findIdx?_eq_some_iff_getElem.1 hs).1, (List.findIdx?_eq_some_iff_getElem.1 ht).1⟩

theorem cross_eq {layout : Layout α} {diagram : SequenceDiagram}
    (h : layout.frames.length = diagram.participants.length) (plan : Plan α) (message : Message)
    (row : α) : cross layout diagram plan message row =
      some ((diagram.crossing? layout message row).elim plan (extend plan)) := by
  unfold cross SequenceDiagram.crossing?
  cases he : diagram.ends? message with
  | none => rfl
  | some ends =>
    obtain ⟨source, target⟩ := ends
    obtain ⟨hs, ht⟩ := ends?_lt he
    rw [← h] at hs ht
    simp [List.getElem?_eq_getElem hs, List.getElem?_eq_getElem ht]

omit [Coordinate α] in
theorem foldl_extend {base : Nat} (start : Nat) (crossings : List (SequenceDiagram.Crossing α))
    (plan : Plan α) (h : plan.boxes.length = base + 2 * start) :
    crossings.foldl extend plan = { plan with
      boxes := plan.boxes ++ crossings.flatMap fun c => [c.source, c.target]
      lines := plan.lines ++ (crossings.zipIdx start).map fun (c, i) => c.line (base + 2 * i) } := by
  induction crossings generalizing start plan with
  | nil => simp
  | cons c crossings ih =>
    rw [List.foldl_cons, ih (start + 1) (extend plan c) (by simp [extend, h]; omega)]
    simp [extend, h]

theorem planSequence_eq (m : Metrics α) (diagram : SequenceDiagram) :
    planSequence (diagram.layout m) diagram = some (diagram.plan (diagram.layout m)) := by
  have hfold : ∀ (pairs : List (Message × α)) (plan : Plan α), pairs.foldlM
      (fun plan (message, row) => cross (diagram.layout m) diagram plan message row) plan =
        some ((pairs.filterMap fun (message, row) =>
          diagram.crossing? (diagram.layout m) message row).foldl extend plan) := by
    intro pairs
    induction pairs with
    | nil => exact fun _ => rfl
    | cons pair pairs ih =>
      obtain ⟨message, row⟩ := pair
      intro plan
      rw [List.foldlM_cons, List.filterMap_cons]
      dsimp only
      rw [cross_eq (diagram.length_frames_layout m)]
      cases diagram.crossing? (diagram.layout m) message row <;> exact ih _
  rw [planSequence, hfold, foldl_extend 0 _ _ (Nat.add_zero _).symm]
  rfl

theorem drawn_eq (stencils : Bool) (m : Metrics α) (diagram : Diagram) :
    drawn stencils m diagram = some (diagram.plan stencils (diagram.layout m)) := by
  rw [drawn, layout_eq]
  cases diagram with
  | flow graph => exact planFlow_eq stencils m graph
  | sequence diagram => exact planSequence_eq m diagram

end Chartboard.Checked

namespace Chartboard

/-- No text and no diagram makes the compiler look at a place that there is not, whatever replaces
the measures. With all places checked, it comes to an end and to the same plan or refusal. -/
theorem every_access_in_range {α : Type} [Coordinate α] (stencils : Bool) :
    (∀ (o : Overrides α) (text : List Char),
      Checked.compile stencils o text = some (Plan.ofText stencils o text)) ∧
    ∀ (m : Metrics α) (diagram : Diagram),
      Checked.drawn stencils m diagram = some (diagram.plan stencils (diagram.layout m)) := by
  refine ⟨fun o text => ?_, Checked.drawn_eq stencils⟩
  rw [Checked.compile, Checked.read_eq, Plan.ofText]
  cases Diagram.read text with
  | error why => rfl
  | ok diagram =>
    simp only [Option.bind_eq_bind, Option.bind_some, Checked.drawn_eq]
    rfl

end Chartboard
