import Chartboard.Proofs.Plan.Sound
import Chartboard.Proofs.Run.References
import Chartboard.Proofs.Sequence.Appearances
import Chartboard.Proofs.Text.Bytes

namespace Chartboard
open Chartboard.Text

section Rows
variable {rows : List (List Char)} {row text : List Char}

/-- The bytes of rows with one line feed behind each of them. -/
def space (rows : List (List Char)) : Nat :=
  (rows.map fun row => byteSize row + 1).sum

@[simp] theorem space_nil : space [] = 0 := rfl

@[simp] theorem space_cons (row : List Char) (rows : List (List Char)) :
    space (row :: rows) = byteSize row + 1 + space rows := by
  simp [space]

theorem space_splitOn (text : List Char) : space (text.splitOn '\n') = byteSize text + 1 := by
  induction text with
  | nil => simp
  | cons c cs ih =>
    rw [List.splitOn_cons_eq_if_modifyHead]
    split
    · next hc =>
      have hfeed : '\n'.utf8Size = 1 := by decide
      rw [space_cons, ih, byteSize_cons, beq_iff_eq.1 hc, byteSize_nil]
      omega
    · cases hs : cs.splitOn '\n' with
      | nil => exact absurd hs (List.splitOn_ne_nil _ _)
      | cons row rows =>
        rw [hs, space_cons] at ih
        rw [List.modifyHead_cons, space_cons, byteSize_cons, byteSize_cons]
        omega

theorem space_meaningfulLines_le (rows : List (List Char)) :
    space (meaningfulLines rows) ≤ space rows := by
  induction rows with
  | nil => exact Nat.le_refl _
  | cons row rows ih =>
    have ht := byteSize_le_of_sublist (trim_sublist row)
    rw [← List.singleton_append, meaningfulLines_append, List.singleton_append, space_cons]
    by_cases hs : (!(trim row).isEmpty && !startsWith ['%', '%'] (trim row)) = true
    · simp only [meaningfulLines, List.map_cons, List.map_nil, List.filter_cons, hs, if_true,
        List.filter_nil, List.singleton_append, space_cons] at ih ⊢
      omega
    · simp only [meaningfulLines, List.map_cons, List.map_nil, List.filter_cons, hs, if_false,
        List.filter_nil, List.nil_append, Bool.false_eq_true] at ih ⊢
      omega

/-- The line feed that ends the header pays for the one that the last line lacks. -/
theorem space_bodyLines_le {diagram : Diagram} (h : Diagram.read text = .ok diagram) :
    space (bodyLines text) ≤ byteSize text := by
  obtain ⟨first, -, hm, -⟩ := Diagram.exists_header h
  have hs := space_meaningfulLines_le (text.splitOn '\n')
  rw [hm, space_splitOn, space_cons] at hs
  omega

/-- What every line pays for, all lines pay for. -/
theorem sum_weight_le {weight : List Char → Nat} {a b : Nat}
    (h : ∀ row, a * weight row ≤ b * (byteSize row + 1)) (rows : List (List Char)) :
    a * (rows.map weight).sum ≤ b * space rows := by
  induction rows with
  | nil => simp
  | cons row rows ih =>
    rw [List.map_cons, List.sum_cons, space_cons, Nat.mul_add, Nat.mul_add]
    exact Nat.add_le_add (h row) ih

/-- What grows by the weight of each line has grown by the weight of all. -/
theorem foldl_size_le {β γ : Type} {add : β → γ → β} (size : β → Nat) {weight : γ → Nat}
    (h : ∀ state line, size (add state line) ≤ size state + weight line) (state : β)
    (lines : List γ) : size (lines.foldl add state) ≤ size state + (lines.map weight).sum := by
  induction lines generalizing state with
  | nil => simp
  | cons line lines ih =>
    have hl := h state line
    have hr := ih (add state line)
    rw [List.foldl_cons, List.map_cons, List.sum_cons]
    omega

end Rows

def FlowGraph.size (graph : FlowGraph) : Nat :=
  graph.nodes.length + graph.edges.length + graph.groups.length

namespace Flow

variable {cs : List Char}

/-- How much a line adds to a flowchart at most. -/
def Line.weight : Line → Nat
  | .opening .. => 1
  | .statement s => s.mentions.length + s.hops.length
  | _ => 0

/-- A link takes three characters and a mention takes one. -/
theorem length_hops? {hops : List (Link × Mention)} (h : hops? cs = some hops) :
    4 * hops.length ≤ cs.length := by
  fun_induction hops? cs generalizing hops with
  | case1 => simp_all
  | case2 => simp at h
  | case3 => simp at h
  | case4 cs _ link r hl m after hm _ _ ih =>
    obtain ⟨more, hr, rfl⟩ := Option.map_eq_some_iff.1 h
    have hlink := (Link.read?_suffix hl).2
    have hmention := (Mention.read?_suffix hm).2
    have hmore := ih hr
    rw [List.length_cons]
    omega

theorem Statement.length_read? {s : Statement} (h : Statement.read? cs = some s) :
    4 * s.hops.length + 1 ≤ cs.length := by
  obtain ⟨r, hf, hh⟩ := Statement.read?_eq_some_iff.1 h
  have hmention := (Mention.read?_suffix hf).2
  have hhops := length_hops? hh
  exact Nat.lt_of_le_of_lt hhops hmention

/-- A line of a flowchart draws one item with every two bytes at most. -/
theorem Line.weight_ofText_le (cs : List Char) :
    2 * (Line.ofText cs).weight ≤ 1 * (byteSize cs + 1) := by
  have hb := length_le_byteSize cs
  have hl : (trimEnd (dropEndWhile (· == ';') cs)).length ≤ cs.length :=
    ((dropEndWhile_sublist _ _).trans (dropEndWhile_sublist _ _)).length_le
  unfold Line.ofText
  simp only
  split
  · exact Nat.zero_le _
  · split
    · next hk =>
      have hw := length_afterKeyword? hk
      simp only [String.length_toList, Line.weight] at hw ⊢
      have : "subgraph".length = 8 := by decide
      omega
    · split
      · next hs =>
        have hn := Statement.length_read? hs
        simp only [Line.weight, Statement.mentions, List.length_cons, List.length_map]
        omega
      · exact Nat.zero_le _

theorem size_mention_le (group : Option Nat) (graph : FlowGraph) (m : Mention) :
    (mention group graph m).size ≤ graph.size + 1 := by
  unfold mention
  split
  · split
    · simp [FlowGraph.size]
    · exact Nat.le_add_right _ 1
  · cases group <;> simp [FlowGraph.size] <;> omega

theorem length_edgesFrom (source : String) (hops : List (Link × Mention)) :
    (edgesFrom source hops).length = hops.length := by
  induction hops generalizing source with
  | nil => rfl
  | cons hop hops ih => rw [edgesFrom, List.length_cons, ih, List.length_cons]

theorem Draft.size_add_le (draft : Draft) (line : Line) :
    (draft.add line).graph.size ≤ draft.graph.size + line.weight := by
  cases line with
  | close => exact Nat.le_refl _
  | opening id title =>
    simp only [Draft.add, FlowGraph.size, List.length_append, List.length_singleton, Line.weight]
    omega
  | statement s =>
    have hm := foldl_size_le FlowGraph.size (size_mention_le draft.inside.head?) draft.graph
      s.mentions
    simp only [List.map_const', List.sum_replicate_nat, Nat.mul_one] at hm
    simp only [Draft.add, FlowGraph.size, List.length_append, Statement.edges, length_edgesFrom,
      Line.weight] at hm ⊢
    omega
  | other => exact Nat.le_refl _

end Flow

theorem FlowGraph.size_ofLines_le (direction : Direction) (rows : List (List Char)) :
    2 * (FlowGraph.ofLines direction rows).size ≤ space rows := by
  have hgrowth := foldl_size_le (fun draft : Flow.Draft => draft.graph.size) Flow.Draft.size_add_le
    { graph := { direction } } (rows.map Flow.Line.ofText)
  have hpaid := sum_weight_le Flow.Line.weight_ofText_le rows
  rw [List.map_map] at hgrowth
  simp only [FlowGraph.size, List.length_nil, Function.comp_def] at hgrowth hpaid
  simp only [FlowGraph.size, FlowGraph.ofLines]
  omega

/-- The frames, boxes and lines that are drawn for a sequence diagram at most: a lifeline and its
head for each participant, and two circles and a line for each message. -/
def SequenceDiagram.size (diagram : SequenceDiagram) : Nat :=
  2 * diagram.participants.length + 3 * diagram.messages.length

namespace Sequence

variable {line : List Char}

def Line.weight : Line → Nat
  | .declaration _ => 2
  | .message _ => 7
  | .other => 0

theorem length_spelling (arrow : Arrow) : 2 ≤ arrow.spelling.length := by
  obtain ⟨dashed, head⟩ := arrow
  cases dashed <;> cases head <;> decide

/-- A message has a sender, an arrow and a receiver, of which the arrow takes two characters. -/
theorem length_message? {m : Message} (h : message? line = some m) : 4 ≤ line.length := by
  simp only [message?, Option.bind_eq_bind, Option.bind_eq_some_iff] at h
  obtain ⟨⟨before, arrow, after⟩, hf, h⟩ := h
  dsimp only at h
  split at h
  · cases h
  · next he =>
    rw [Bool.or_eq_true, not_or, List.isEmpty_iff, List.isEmpty_iff] at he
    have hsender : before ≠ [] := by
      rintro rfl
      exact he.1 rfl
    have hreceiver : after ≠ [] := by
      rintro rfl
      exact he.2 rfl
    have hl := (prefix_atColon line).length_le
    have hb := List.length_pos_iff.2 hsender
    have ha := List.length_pos_iff.2 hreceiver
    have hs := length_spelling arrow
    rw [eq_append_of_findArrow? hf, List.length_append, List.length_append] at hl
    omega

/-- A line of a sequence diagram draws seven items with every five bytes at most. -/
theorem Line.weight_ofText_le (cs : List Char) :
    5 * (Line.ofText cs).weight ≤ 7 * (byteSize cs + 1) := by
  have hb := length_le_byteSize cs
  have hdeclared : ∀ {keyword rest : List Char}, afterKeyword? keyword cs = some rest →
      1 ≤ keyword.length → 5 * 2 ≤ 7 * (byteSize cs + 1) := by
    intro keyword rest hk hlen
    have := length_afterKeyword? hk
    omega
  unfold Line.ofText
  split
  · next hk => exact hdeclared hk (by decide)
  · split
    · next hk => exact hdeclared hk (by decide)
    · split
      · exact Nat.zero_le _
      · split
        · next hm =>
          have hl := length_message? hm
          simp only [Line.weight]
          omega
        · exact Nat.zero_le _

theorem size_register_le (diagram : SequenceDiagram) (p : Participant) :
    (register diagram p).size ≤ diagram.size + 2 := by
  unfold register
  split
  · exact Nat.le_add_right _ 2
  · simp only [SequenceDiagram.size, List.length_append, List.length_singleton]
    omega

theorem size_add_le (diagram : SequenceDiagram) (line : Line) :
    (add diagram line).size ≤ diagram.size + line.weight := by
  cases line with
  | declaration p => exact size_register_le diagram p
  | message m =>
    have hs := size_register_le diagram (undeclared m.sender)
    have hr := size_register_le (register diagram (undeclared m.sender)) (undeclared m.receiver)
    simp only [SequenceDiagram.size, add, List.length_append, List.length_singleton, Line.weight]
      at hs hr ⊢
    omega
  | other => exact Nat.le_refl _

end Sequence

theorem SequenceDiagram.size_ofLines_le (rows : List (List Char)) :
    5 * (SequenceDiagram.ofLines rows).size ≤ 7 * space rows := by
  have hgrowth := foldl_size_le SequenceDiagram.size Sequence.size_add_le {}
    (rows.map Sequence.Line.ofText)
  have hpaid := sum_weight_le Sequence.Line.weight_ofText_le rows
  rw [List.map_map] at hgrowth
  simp only [SequenceDiagram.size, List.length_nil, Function.comp_def] at hgrowth hpaid
  simp only [SequenceDiagram.size, SequenceDiagram.ofLines]
  omega

def Plan.size {α : Type} (plan : Plan α) : Nat :=
  plan.frames.length + plan.boxes.length + plan.lines.length

/-- A run makes one call at most for each item of its plan. -/
theorem Run.Job.length_starts_le {α σ : Type} (job : Job α σ) :
    (starts job.trace).length ≤ job.plan.size := by
  let places := (List.range job.plan.frames.length).map (Prod.mk Kind.frame) ++
    (List.range job.plan.boxes.length).map (Prod.mk Kind.box) ++
    (List.range job.plan.lines.length).map (Prod.mk Kind.line)
  have hsubset : (starts job.trace).map (fun call => (call.request.kind, call.place)) ⊆ places := by
    intro place hm
    obtain ⟨call, hc, rfl⟩ := List.mem_map.1 hm
    obtain ⟨hr, -⟩ := Job.requested (mem_starts_iff.1 hc)
    have hlt := (List.getElem?_eq_some_iff.1 hr).1
    cases hk : call.request.kind with
    | frame =>
      rw [hk, entry_frame, frameRequests, List.length_map] at hlt
      simp [places, hlt]
    | box =>
      rw [hk, entry_box, boxRequests, List.length_map] at hlt
      simp [places, hlt]
    | line =>
      rw [hk, entry_line, lineRequests, List.length_map] at hlt
      simp [places, hlt]
  have hlength := (job.nodup_starts.subperm hsubset).length_le
  simpa [places, Plan.size, Nat.add_assoc] using hlength

section Plans
variable {α : Type} [Coordinate α]

theorem FlowGraph.size_plan_le (stencils : Bool) (m : Metrics α) (graph : FlowGraph) :
    (graph.plan stencils (graph.layout m)).size ≤ graph.size := by
  have hboxes := FlowGraph.length_boxes_plan (graph.length_nodes_layout m) stencils
  have hframes : (graph.layout m).frames.length ≤ graph.groups.length :=
    List.length_filterMap_le _ _
  have hlines : (graph.plan stencils (graph.layout m)).lines.length ≤ graph.edges.length :=
    List.length_filterMap_le _ _
  have hitems : (graph.plan stencils (graph.layout m)).frames.length =
      (graph.layout m).frames.length := List.length_map _
  rw [Plan.size, FlowGraph.size]
  omega

theorem SequenceDiagram.size_plan_le (m : Metrics α) (diagram : SequenceDiagram) :
    (diagram.plan (diagram.layout m)).size ≤ diagram.size := by
  have hframes := diagram.length_frames_layout m
  have hcrossings : (diagram.crossings (diagram.layout m)).length ≤ diagram.messages.length := by
    refine Nat.le_trans (List.length_filterMap_le _ _) ?_
    rw [List.length_zip]
    exact Nat.min_le_left _ _
  simp only [Plan.size, plan, List.length_map, List.length_append, List.length_zipIdx,
    List.length_zip, length_circles, SequenceDiagram.size]
  omega

theorem FlowGraph.size_plan_le_of_read {text : List Char} {graph : FlowGraph}
    (h : Diagram.read text = .ok (.flow graph)) (stencils : Bool) (m : Metrics α) :
    2 * (graph.plan stencils (graph.layout m)).size ≤ byteSize text := by
  have hplan := graph.size_plan_le stencils m
  have hspace := space_bodyLines_le h
  obtain ⟨-, header, -, -, he⟩ := Diagram.exists_header h
  cases header with
  | flow direction =>
    have hgraph := FlowGraph.size_ofLines_le direction (bodyLines text)
    cases he
    omega
  | sequence => cases he

theorem SequenceDiagram.size_plan_le_of_read {text : List Char} {diagram : SequenceDiagram}
    (h : Diagram.read text = .ok (.sequence diagram)) (m : Metrics α) :
    5 * (diagram.plan (diagram.layout m)).size ≤ 7 * byteSize text := by
  have hplan := diagram.size_plan_le m
  have hspace := space_bodyLines_le h
  have hdiagram := SequenceDiagram.size_ofLines_le (bodyLines text)
  rw [← Diagram.ofLines_of_read h] at hdiagram
  omega

/-- Whatever a text draws, however it is laid out: a flowchart has one item for every two bytes at
most, and a sequence diagram seven for every five, so a run never makes more calls than the longest
text can ask for. -/
theorem plans_are_bounded_by_texts {stencils : Bool} {o : Overrides α} {text : List Char}
    {plan : Plan α} (h : Plan.ofText stencils o text = .ok plan) :
    (∃ diagram, Diagram.read text = .ok diagram ∧ plan = diagram.planned stencils o ∧
      (diagram.family = .flow → 2 * plan.size ≤ byteSize text) ∧
      (diagram.family = .sequence → 5 * plan.size ≤ 7 * byteSize text)) ∧
    plan.size ≤ 71680 ∧
    ∀ (σ : Type) (job : Run.Job α σ), job.plan = plan →
      (Run.starts job.trace).length ≤ plan.size ∧ (Run.starts job.trace).length ≤ 71680 := by
  obtain ⟨diagram, hread, rfl⟩ := Plan.exists_diagram h
  have hlimit : byteSize text ≤ 51200 := (Diagram.read_eq_ok_iff.1 hread).1.size
  have hsize : (diagram.family = .flow → 2 * (diagram.planned stencils o).size ≤ byteSize text) ∧
      (diagram.family = .sequence →
        5 * (diagram.planned stencils o).size ≤ 7 * byteSize text) := by
    cases diagram with
    | flow graph => exact ⟨fun _ => FlowGraph.size_plan_le_of_read hread stencils _, nofun⟩
    | sequence diagram => exact ⟨nofun, fun _ => SequenceDiagram.size_plan_le_of_read hread _⟩
  have hbound : (diagram.planned stencils o).size ≤ 71680 := by
    cases hf : diagram.family with
    | flow =>
      have := hsize.1 hf
      omega
    | sequence =>
      have := hsize.2 hf
      omega
  refine ⟨⟨diagram, hread, rfl, hsize⟩, hbound, ?_⟩
  intro σ job hjob
  have hcalls := job.length_starts_le
  rw [hjob] at hcalls
  exact ⟨hcalls, Nat.le_trans hcalls hbound⟩

end Plans

/-- Messages between participants who appear in no other one: no lines draw more with their bytes.
-/
def strangers : SequenceDiagram where
  participants := ["a", "b", "c", "d", "e", "f"].map Sequence.undeclared
  messages := [("a", "b"), ("c", "d"), ("e", "f")].map fun (sender, receiver) =>
    ⟨sender, receiver, "", ⟨false, .hollow⟩, none⟩

def strangersText : String :=
  "sequenceDiagram\na->b\nc->d\ne->f"

theorem strangers_bounded : ∃ plan : Plan Rat,
    Plan.ofText false {} strangersText.toList = .ok plan ∧ plan.size = 21 ∧
      ∀ job : Run.Job Rat Unit, job.plan = plan → (Run.starts job.trace).length ≤ 21 := by
  have hread : Diagram.read strangersText.toList = .ok (.sequence strangers) := by decide +kernel
  have hplan : Plan.ofText false {} strangersText.toList =
      .ok ((Diagram.sequence strangers).planned false ({} : Overrides Rat)) := by
    rw [Plan.ofText, hread]
    rfl
  have hsize : ((Diagram.sequence strangers).planned false ({} : Overrides Rat)).size = 21 := by
    decide +kernel
  obtain ⟨-, -, hcalls⟩ := plans_are_bounded_by_texts hplan
  exact ⟨_, hplan, hsize, fun job hjob => hsize ▸ (hcalls Unit job hjob).1⟩

end Chartboard
