import Chartboard.Proofs.Plan.Sound
import Chartboard.Proofs.Sequence.Participants

namespace Chartboard

theorem forall₂_filter_filterMap {β γ : Type} {keep : β → Bool} {make : β → Option γ}
    {l : List β} (h : ∀ x ∈ l, keep x = (make x).isSome) :
    List.Forall₂ (fun x y => make x = some y) (l.filter keep) (l.filterMap make) := by
  induction l with
  | nil => exact .nil
  | cons x l ih =>
    rw [List.forall_mem_cons] at h
    cases hm : make x with
    | none =>
      have hk : keep x = false := by rw [h.1, hm]; rfl
      rw [List.filter_cons_of_neg (by simp [hk]), List.filterMap_cons_none hm]
      exact ih h.2
    | some y =>
      have hk : keep x = true := by rw [h.1, hm]; rfl
      rw [List.filter_cons_of_pos hk, List.filterMap_cons_some hm]
      exact .cons hm (ih h.2)

theorem filterMap_zip_drop {β γ δ : Type} (make : β → γ → Option δ) (l : List β) (m : List γ)
    (place : Nat) :
    (l.zip (m.drop place)).filterMap (fun (x, y) => make x y) =
      (l.zipIdx place).filterMap fun (x, i) => m[i]?.bind (make x) := by
  induction l generalizing place with
  | nil => rfl
  | cons x l ih =>
    rw [List.zipIdx_cons, List.filterMap_cons, ← ih]
    cases hm : m[place]? with
    | none =>
      have hle := List.getElem?_eq_none_iff.1 hm
      rw [List.drop_eq_nil_of_le hle, List.drop_eq_nil_of_le (Nat.le_succ_of_le hle)]
      simp [hm]
    | some y =>
      obtain ⟨hlt, rfl⟩ := List.getElem?_eq_some_iff.1 hm
      rw [List.drop_eq_getElem_cons hlt, List.zip_cons_cons, List.filterMap_cons]
      simp only [hm, Option.bind_some]

theorem exists_getElem? {β γ : Type} {l : List β} {m : List γ} (h : m.length = l.length)
    {place : Nat} {x : β} (hx : l[place]? = some x) : ∃ y, m[place]? = some y :=
  ⟨_, List.getElem?_eq_getElem (h ▸ (List.getElem?_eq_some_iff.1 hx).1)⟩

theorem getElem?_of_findIdx? {β : Type} {name : β → String} {l : List β} {id : String} {place : Nat}
    (h : l.findIdx? (name · == id) = some place) : ∃ x, l[place]? = some x ∧ name x = id := by
  obtain ⟨hlt, hid, -⟩ := List.findIdx?_eq_some_iff_getElem.1 h
  exact ⟨_, List.getElem?_eq_getElem hlt, beq_iff_eq.1 hid⟩

section Pairs
variable (first second : Option Nat)

theorem pair_eq_some {ends : Nat × Nat} :
    (do return (← first, ← second)) = some ends ↔ first = some ends.1 ∧ second = some ends.2 := by
  obtain ⟨source, target⟩ := ends
  simp [Option.bind_eq_some_iff]

theorem isSome_pair : (do return (← first, ← second) : Option (Nat × Nat)).isSome =
    (first.isSome && second.isSome) := by
  cases first with
  | none => rfl
  | some source => cases second <;> rfl

end Pairs

variable {α : Type} [Coordinate α]

/-- A box over the whole of a rectangle. -/
structure BoxItem.Covers (box : BoxItem α Nat) (rect : Rect α) : Prop where
  x : box.x = rect.centerX
  y : box.y = rect.centerY
  width : box.width = rect.width
  height : box.height = rect.height

namespace FlowGraph

/-- Whether both ends of an edge are nodes. -/
def knows (graph : FlowGraph) (edge : Edge) : Bool :=
  graph.nodes.any (·.id == edge.source) && graph.nodes.any (·.id == edge.target)

/-- A line between the boxes of the nodes at the ends of an edge. -/
structure Joins (graph : FlowGraph) (edge : Edge) (line : LineItem Nat) : Prop where
  source : ∃ node, graph.nodes[line.source]? = some node ∧ node.id = edge.source
  target : ∃ node, graph.nodes[line.target]? = some node ∧ node.id = edge.target
  label : line.label = edge.label
  stroke : line.stroke = edge.stroke
  startCap : line.startCap = edge.startCap
  endCap : line.endCap = edge.endCap

/-- A plan with a box for each node and a line for each edge between nodes. -/
structure Corresponds (stencils : Bool) (layout : Layout α) (graph : FlowGraph) (plan : Plan α) :
    Prop where
  count : plan.boxes.length = graph.nodes.length
  boxes : ∀ (place : Nat) (node : Node), graph.nodes[place]? = some node → ∃ box rect,
    plan.boxes[place]? = some box ∧ layout.nodes[place]? = some rect ∧ box.Covers rect ∧
      box.shape = node.shape ∧ box.label = node.label ∧ box.stencil = stencils
  lines : List.Forall₂ graph.Joins (graph.edges.filter graph.knows) plan.lines

end FlowGraph

namespace SequenceDiagram

/-- Whether both ends of a message are participants. -/
def knows (diagram : SequenceDiagram) (message : Message) : Bool :=
  diagram.participants.any (·.id == message.sender) &&
    diagram.participants.any (·.id == message.receiver)

/-- The messages between participants, each with its place among all messages. -/
def known (diagram : SequenceDiagram) : List (Message × Nat) :=
  diagram.messages.zipIdx.filter fun (message, _) => diagram.knows message

/-- A box in the middle of the lifeline of a participant, at the height of a message. -/
def Anchored (layout : Layout α) (diagram : SequenceDiagram) (plan : Plan α) (place : Nat)
    (id : String) (row : Nat) : Prop :=
  ∃ box lifeline p frame, plan.boxes[place]? = some box ∧ box.parent = some lifeline ∧
    diagram.participants[lifeline]? = some p ∧ p.id = id ∧
    plan.frames[lifeline]? = some frame ∧ box.x = frame.x ∧ layout.rows[row]? = some box.y

/-- A plan with a frame and a head for each participant, and two boxes and a line for each message
between participants. -/
structure Corresponds (layout : Layout α) (diagram : SequenceDiagram) (plan : Plan α) : Prop where
  frames : plan.frames.length = diagram.participants.length
  boxes : plan.boxes.length = diagram.participants.length + 2 * diagram.known.length
  lines : plan.lines.length = diagram.known.length
  heads : ∀ (place : Nat) (p : Participant), diagram.participants[place]? = some p → ∃ box rect,
    plan.boxes[place]? = some box ∧ layout.nodes[place]? = some rect ∧ box.Covers rect ∧
      box.shape = (if p.actor then .circle else .rectangle) ∧ box.label = p.label ∧
      box.parent = some place
  messages : ∀ (place : Nat) (message : Message) (row : Nat),
    diagram.known[place]? = some (message, row) → ∃ line,
      plan.lines[place]? = some line ∧
      line.source = diagram.participants.length + 2 * place ∧ line.target = line.source + 1 ∧
      line.label = (if message.text = "" then none else some message.text) ∧
      line.stroke = message.arrow.stroke ∧ line.startCap = .none ∧
      line.endCap = message.arrow.head.cap ∧
      diagram.Anchored layout plan line.source message.sender row ∧
      diagram.Anchored layout plan line.target message.receiver row

end SequenceDiagram

/-- What a plan stands for. -/
def Diagram.Corresponds (stencils : Bool) (layout : Layout α) (plan : Plan α) : Diagram → Prop
  | .flow graph => graph.Corresponds stencils layout plan
  | .sequence diagram => diagram.Corresponds layout plan

namespace FlowGraph

variable {graph : FlowGraph}

theorem position?_eq_some {id : String} {place : Nat} (h : graph.position? id = some place) :
    ∃ node, graph.nodes[place]? = some node ∧ node.id = id :=
  getElem?_of_findIdx? h

theorem ends?_eq_some {edge : Edge} {ends : Nat × Nat} :
    graph.ends? edge = some ends ↔
      graph.position? edge.source = some ends.1 ∧ graph.position? edge.target = some ends.2 :=
  pair_eq_some _ _

theorem knows_eq (graph : FlowGraph) (edge : Edge) :
    graph.knows edge = (graph.ends? edge).isSome := by
  rw [ends?, isSome_pair, position?, List.findIdx?_isSome, position?, List.findIdx?_isSome, knows]

theorem box_covers (stencils : Bool) (node : Node) (parent : Option Nat) (rect : Rect α) :
    (box stencils node parent rect).Covers rect ∧
      (box stencils node parent rect).shape = node.shape ∧
      (box stencils node parent rect).label = node.label ∧
      (box stencils node parent rect).stencil = stencils := by
  unfold box
  cases stencils <;> exact ⟨⟨rfl, rfl, rfl, rfl⟩, rfl, rfl, rfl⟩

theorem getElem?_boxes_plan {layout : Layout α} {stencils : Bool} {place : Nat} {node : Node}
    {rect : Rect α} (hnode : graph.nodes[place]? = some node)
    (hrect : layout.nodes[place]? = some rect) : (graph.plan stencils layout).boxes[place]? =
      some (box stencils node (parent? layout.frames place) rect) := by
  have hz : (graph.nodes.zip layout.nodes)[place]? = some (node, rect) :=
    List.getElem?_zip_eq_some.2 ⟨hnode, hrect⟩
  simp [plan, hz]

theorem plan_corresponds {layout : Layout α} (hn : layout.nodes.length = graph.nodes.length)
    (stencils : Bool) : graph.Corresponds stencils layout (graph.plan stencils layout) where
  count := length_boxes_plan hn stencils
  boxes place node h := by
    obtain ⟨rect, hr⟩ := exists_getElem? hn h
    exact ⟨_, rect, getElem?_boxes_plan h hr, hr, box_covers ..⟩
  lines := by
    refine (forall₂_filter_filterMap ?_).imp ?_
    · intro edge _
      rw [knows_eq, Option.isSome_map]
    · intro edge line he
      obtain ⟨ends, hends, rfl⟩ := Option.map_eq_some_iff.1 he
      obtain ⟨hs, ht⟩ := ends?_eq_some.1 hends
      exact ⟨position?_eq_some hs, position?_eq_some ht, rfl, rfl, rfl, rfl⟩

end FlowGraph

namespace SequenceDiagram

variable {diagram : SequenceDiagram} {layout : Layout α}

theorem position?_eq_some {id : String} {place : Nat} (h : diagram.position? id = some place) :
    ∃ p, diagram.participants[place]? = some p ∧ p.id = id :=
  getElem?_of_findIdx? h

theorem ends?_eq_some {message : Message} {ends : Nat × Nat} :
    diagram.ends? message = some ends ↔ diagram.position? message.sender = some ends.1 ∧
      diagram.position? message.receiver = some ends.2 :=
  pair_eq_some _ _

theorem knows_eq (diagram : SequenceDiagram) (message : Message) :
    diagram.knows message = (diagram.ends? message).isSome := by
  rw [ends?, isSome_pair, position?, List.findIdx?_isSome, position?, List.findIdx?_isSome, knows]

theorem Joined.known_eq (h : diagram.Joined) : diagram.known = diagram.messages.zipIdx := by
  rw [known, List.filter_eq_self]
  intro x hx
  simpa [knows] using h x.1 (List.fst_mem_of_mem_zipIdx hx)

theorem isSome_crossing? (hf : layout.frames.length = diagram.participants.length)
    (message : Message) (row : α) :
    (diagram.crossing? layout message row).isSome = diagram.knows message := by
  rw [knows_eq, crossing?]
  cases he : diagram.ends? message with
  | none => rfl
  | some ends =>
    obtain ⟨hs, ht⟩ := ends?_eq_some.1 he
    obtain ⟨p, hp, -⟩ := position?_eq_some hs
    obtain ⟨q, hq, -⟩ := position?_eq_some ht
    have hsource : ends.1 < layout.frames.length := hf ▸ (List.getElem?_eq_some_iff.1 hp).1
    have htarget : ends.2 < layout.frames.length := hf ▸ (List.getElem?_eq_some_iff.1 hq).1
    simp [hsource, htarget]

omit [Coordinate α] in
theorem getElem?_circles (crossings : List (Crossing α)) (place : Nat) :
    (crossings.flatMap fun c => [c.source, c.target])[2 * place]? =
      crossings[place]?.map Crossing.source ∧
    (crossings.flatMap fun c => [c.source, c.target])[2 * place + 1]? =
      crossings[place]?.map Crossing.target := by
  induction crossings generalizing place with
  | nil => simp
  | cons c crossings ih =>
    cases place with
    | zero => simp
    | succ place => simpa [Nat.mul_add] using ih place

theorem crossing?_eq_some {message : Message} {row : α} {c : Crossing α}
    (h : diagram.crossing? layout message row = some c) : ∃ source target first second,
      diagram.ends? message = some (source, target) ∧ layout.frames[source]? = some first ∧
        layout.frames[target]? = some second ∧
        c = ⟨message, anchor first row source, anchor second row target⟩ := by
  simp only [crossing?, Option.bind_eq_bind, Option.bind_eq_some_iff, Option.pure_def,
    Option.some.injEq] at h
  obtain ⟨⟨source, target⟩, he, first, hf, second, hs, rfl⟩ := h
  exact ⟨source, target, first, second, he, hf, hs, rfl⟩

theorem forall₂_crossings (hf : layout.frames.length = diagram.participants.length)
    (hr : diagram.participants ≠ [] → layout.rows.length = diagram.messages.length) :
    List.Forall₂ (fun x c => layout.rows[x.2]?.bind (diagram.crossing? layout x.1) = some c)
      diagram.known (diagram.crossings layout) := by
  have hc : diagram.crossings layout = diagram.messages.zipIdx.filterMap fun (message, row) =>
      layout.rows[row]?.bind (diagram.crossing? layout message) :=
    filterMap_zip_drop (diagram.crossing? layout) diagram.messages layout.rows 0
  rw [hc]
  refine forall₂_filter_filterMap ?_
  rintro ⟨message, row⟩ hm
  have hlt := List.snd_lt_of_mem_zipIdx hm
  dsimp only at hlt ⊢
  cases hy : layout.rows[row]? with
  | some y => rw [Option.bind_some, isSome_crossing? hf]
  | none =>
    -- Without participants there are no rows, and nobody is known.
    have hp : diagram.participants = [] := by
      by_contra hne
      rw [List.getElem?_eq_none_iff, hr hne] at hy
      omega
    simp [knows, hp]

/-- The crossing of a known message, with the circles that it has at the height of its row. -/
theorem exists_crossing (hf : layout.frames.length = diagram.participants.length)
    (hr : diagram.participants ≠ [] → layout.rows.length = diagram.messages.length)
    {place row : Nat} {message : Message} (h : diagram.known[place]? = some (message, row)) :
    ∃ y source target first second, layout.rows[row]? = some y ∧
      diagram.position? message.sender = some source ∧
      diagram.position? message.receiver = some target ∧
      layout.frames[source]? = some first ∧ layout.frames[target]? = some second ∧
      (diagram.crossings layout)[place]? =
        some ⟨message, anchor first y source, anchor second y target⟩ := by
  have hall := forall₂_crossings hf hr
  obtain ⟨hlt, hknown⟩ := List.getElem?_eq_some_iff.1 h
  have hltc : place < (diagram.crossings layout).length := hall.length_eq ▸ hlt
  have hc := List.getElem?_eq_getElem hltc
  have hat := hall.get hlt hltc
  simp only [List.get_eq_getElem, hknown, Option.bind_eq_some_iff] at hat
  obtain ⟨y, hy, hcross⟩ := hat
  obtain ⟨source, target, first, second, he, hfirst, hsecond, hmade⟩ := crossing?_eq_some hcross
  obtain ⟨hsource, htarget⟩ := ends?_eq_some.1 he
  exact ⟨y, source, target, first, second, hy, hsource, htarget, hfirst, hsecond, hmade ▸ hc⟩

theorem getElem?_boxes_behind (hn : layout.nodes.length = diagram.participants.length)
    (place : Nat) : (diagram.plan layout).boxes[diagram.participants.length + place]? =
      ((diagram.crossings layout).flatMap fun c => [c.source, c.target])[place]? := by
  have hheads : ∀ head : (Participant × Rect α) × Nat → BoxItem α Nat,
      ((diagram.participants.zip layout.nodes).zipIdx.map head).length =
        diagram.participants.length := by simp [hn]
  rw [plan, List.getElem?_append_right (by rw [hheads]; omega), hheads, Nat.add_sub_cancel_left]

/-- A circle stands on the lifeline of the participant whose place it was given. -/
theorem anchored_of_anchor {plan : Plan α} {place lifeline row : Nat} {id : String} {y : α}
    {frame : Frame α} (hp : diagram.position? id = some lifeline)
    (hf : layout.frames[lifeline]? = some frame) (hy : layout.rows[row]? = some y)
    (hb : plan.boxes[place]? = some (anchor frame y lifeline))
    (hplan : plan.frames = layout.frames.map (·.item Palette.lifeline)) :
    diagram.Anchored layout plan place id row := by
  obtain ⟨p, hpart, hid⟩ := position?_eq_some hp
  refine ⟨_, lifeline, p, frame.item Palette.lifeline, hb, rfl, hpart, hid, ?_, rfl, hy⟩
  rw [hplan, List.getElem?_map, hf]
  rfl

theorem header_covers (p : Participant) (lifeline : Nat) (rect : Rect α) :
    (header p lifeline rect).Covers rect ∧
      (header p lifeline rect).shape = (if p.actor then .circle else .rectangle) ∧
      (header p lifeline rect).label = p.label ∧
      (header p lifeline rect).parent = some lifeline := by
  unfold header
  split <;> exact ⟨⟨rfl, rfl, rfl, rfl⟩, rfl, rfl, rfl⟩

theorem plan_corresponds (hn : layout.nodes.length = diagram.participants.length)
    (hf : layout.frames.length = diagram.participants.length)
    (hr : diagram.participants ≠ [] → layout.rows.length = diagram.messages.length) :
    diagram.Corresponds layout (diagram.plan layout) := by
  have hcount : (diagram.crossings layout).length = diagram.known.length :=
    (forall₂_crossings hf hr).length_eq.symm
  have hheads : ∀ head : (Participant × Rect α) × Nat → BoxItem α Nat,
      ((diagram.participants.zip layout.nodes).zipIdx.map head).length =
        diagram.participants.length := by simp [hn]
  refine ⟨?_, ?_, ?_, ?_, ?_⟩
  · simp [plan, hf]
  · rw [plan, List.length_append, hheads, length_circles, hcount]
  · simp [plan, hcount]
  · intro place p h
    obtain ⟨rect, hr⟩ := exists_getElem? hn h
    have hz : (diagram.participants.zip layout.nodes)[place]? = some (p, rect) :=
      List.getElem?_zip_eq_some.2 ⟨h, hr⟩
    have hlt : place < diagram.participants.length := (List.getElem?_eq_some_iff.1 h).1
    refine ⟨header p place rect, rect, ?_, hr, header_covers ..⟩
    rw [plan, List.getElem?_append_left (by rw [hheads]; exact hlt)]
    simp [hz]
  · intro place message row h
    obtain ⟨y, source, target, first, second, hy, hsource, htarget, hfirst, hsecond, hc⟩ :=
      exists_crossing hf hr h
    obtain ⟨hcs, hct⟩ := getElem?_circles (diagram.crossings layout) place
    rw [hc] at hcs hct
    refine ⟨Crossing.line (diagram.participants.length + 2 * place)
      ⟨message, anchor first y source, anchor second y target⟩, ?_, rfl, rfl, ?_, rfl, rfl, rfl,
      anchored_of_anchor hsource hfirst hy ?_ rfl, anchored_of_anchor htarget hsecond hy ?_ rfl⟩
    · simp [plan, hc, hn]
    · simp [Crossing.line]
    · exact (getElem?_boxes_behind hn _).trans hcs
    · exact (getElem?_boxes_behind hn _).trans hct

theorem plan_layout_corresponds (m : Metrics α) (diagram : SequenceDiagram) :
    diagram.Corresponds (diagram.layout m) (diagram.plan (diagram.layout m)) :=
  plan_corresponds (diagram.length_nodes_layout m) (diagram.length_frames_layout m)
    (length_rows_layout m)

end SequenceDiagram

theorem Diagram.plan_corresponds (stencils : Bool) (m : Metrics α) (diagram : Diagram) :
    diagram.Corresponds stencils (diagram.layout m) (diagram.plan stencils (diagram.layout m)) := by
  cases diagram with
  | flow graph => exact FlowGraph.plan_corresponds (graph.length_nodes_layout m) stencils
  | sequence diagram => exact diagram.plan_layout_corresponds m

/-- All edges or messages of a diagram that is read have known ends. -/
theorem Diagram.Corresponds.length_lines {stencils : Bool} {layout : Layout α} {plan : Plan α}
    {diagram : Diagram} (h : diagram.Corresponds stencils layout plan) {text : List Char}
    (ht : Diagram.read text = .ok diagram) : plan.lines.length = diagram.edgeCount := by
  cases diagram with
  | flow graph =>
    have hk : graph.edges.filter graph.knows = graph.edges := by
      rw [List.filter_eq_self]
      intro edge he
      simpa [FlowGraph.knows] using (read_flowchart_wellFormed ht).joined edge he
    have hl := FlowGraph.Corresponds.lines h
    rw [hk] at hl
    exact hl.length_eq.symm
  | sequence diagram =>
    rw [SequenceDiagram.Corresponds.lines h, (joined_of_read ht).known_eq, List.length_zipIdx]
    rfl

/-- Whatever is drawn, parsed or not, and in whatever measures: references stay inside the plan, and
its items stand for the nodes and the edges or messages with known ends, in their order. Nothing that
was read is left out. -/
theorem every_plan_corresponds (stencils : Bool) (m : Metrics α) (diagram : Diagram) :
    let layout := diagram.layout m
    let plan := diagram.plan stencils layout
    plan.Linked ∧ diagram.Corresponds stencils layout plan ∧
      ∀ text, Diagram.read text = .ok diagram → plan.lines.length = diagram.edgeCount :=
  ⟨diagram.plan_linked stencils m, diagram.plan_corresponds stencils m,
    fun _ ht => (diagram.plan_corresponds stencils m).length_lines ht⟩

def chat : SequenceDiagram where
  participants := [⟨"ann", "ann", true⟩, ⟨"bob", "Bob", false⟩]
  messages := [⟨"ann", "bob", "hi", ⟨false, .filled⟩, none⟩,
    ⟨"bob", "ann", "bye", ⟨true, .filled⟩, none⟩]

def chat.text : String :=
  "sequenceDiagram\nactor ann\nparticipant bob as Bob\nann->>bob: hi\nbob-->>ann: bye"

/-- The same with a message to somebody unknown between the two. -/
def chat.overheard : SequenceDiagram :=
  { chat with messages := chat.messages.insertIdx 1 ⟨"ann", "eve", "psst", ⟨false, .async⟩, none⟩ }

theorem chat_corresponds :
    let m : Metrics Rat := .sequence
    (Diagram.read chat.text.toList = .ok (.sequence chat) ∧
      (chat.plan (chat.layout m)).lines.length = 2) ∧
    (chat.overheard.plan (chat.overheard.layout m)).lines.length = 2 ∧
    chat.overheard.Anchored (chat.overheard.layout m)
      (chat.overheard.plan (chat.overheard.layout m)) 4 "bob" 2 := by
  intro m
  have hread : Diagram.read chat.text.toList = .ok (.sequence chat) := by decide +kernel
  obtain ⟨-, -, hlines⟩ := every_plan_corresponds false m (.sequence chat)
  obtain ⟨-, hother, -⟩ := every_plan_corresponds false m (.sequence chat.overheard)
  refine ⟨⟨hread, hlines _ hread⟩, SequenceDiagram.Corresponds.lines hother, ?_⟩
  obtain ⟨line, -, hs, -, -, -, -, -, ha, -⟩ := SequenceDiagram.Corresponds.messages hother 1
    ⟨"bob", "ann", "bye", ⟨true, .filled⟩, none⟩ 2 (by decide +kernel)
  rw [hs] at ha
  exact ha

end Chartboard
