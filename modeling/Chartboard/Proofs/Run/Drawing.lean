import Chartboard.Canvas.Identifier
import Chartboard.Command.Execution
import Chartboard.Proofs.Plan.Landing

namespace Chartboard
open Chartboard.Run

variable {α : Type}

namespace Run

/-- The outcomes of a stage of which all items are created. -/
def allCreated (newId : Nat → String) (plan : Plan α) (kind : Kind) : List Outcome :=
  (List.range (plan.count kind)).map fun place => .created (plan.id newId kind place)

theorem getElem?_ids_allCreated {newId : Nat → String} {plan : Plan α} {kind : Kind} {place : Nat}
    (h : place < plan.count kind) :
    (ids (allCreated newId plan kind))[place]?.join = some (plan.id newId kind place) := by
  rw [getElem?_ids, allCreated, List.getElem?_map, List.getElem?_range h]
  rfl

variable [Coordinate α] {newId : Nat → String}

/-- Once all frames are created, every box stands in the frame that it names. -/
theorem boxRequests_eq {plan : Plan α} (h : plan.Sound) :
    boxRequests none (ids (allCreated newId plan .frame)) plan =
      (plan.requests newId .box).map some := by
  rw [boxRequests, Plan.requests, List.map_map]
  refine List.map_congr_left fun item hm => ?_
  rw [Function.comp_apply]
  cases hp : item.parent with
  | none => rfl
  | some frame =>
    have hlt : frame < plan.count .frame := h.parents item hm frame hp
    rw [Option.map_some, ← getElem?_ids_allCreated hlt]

/-- Once all boxes are created, every line is asked for. -/
theorem lineRequests_eq {plan : Plan α} (h : plan.Sound) :
    lineRequests (ids (allCreated newId plan .box)) plan =
      (plan.requests newId .line).map some := by
  rw [lineRequests, Plan.requests, List.map_map]
  refine List.map_congr_left fun item hm => ?_
  obtain ⟨hs, ht⟩ := h.ends item hm
  rw [getElem?_ids_allCreated hs, getElem?_ids_allCreated ht]
  rfl

/-- A job on a board that is empty at first, with nothing in its way. -/
structure Job.Undisturbed (newId : Nat → String) (job : Job α (Board α)) : Prop where
  unstopped : job.Unstopped
  canvas : job.canvas = Board.canvas newId
  start : job.start.canvas = {}
  named : job.board.toList.all Text.isBlank = false
  parent : job.options.parent = none
  sound : job.plan.Sound

namespace Job.Undisturbed

variable {job : Job α (Board α)} (h : job.Undisturbed newId)
include h

/-- A stage that asks for the items of its kind creates them all. -/
theorem exit_of_entry {kind : Kind}
    (he : (job.entry kind).1 = (job.plan.requests newId kind).map some)
    (hb : (job.entry kind).2.canvas = job.plan.board newId job.board kind) :
    (job.exit kind).1 = allCreated newId job.plan kind ∧
      (job.exit kind).2.canvas = (job.plan.board newId job.board kind).fill newId job.board
        (job.plan.requests newId kind) := by
  have hexit := h.unstopped.exit_eq kind
  have hc : job.setting.canvas = Board.canvas newId := h.canvas
  have hn : job.setting.board.toList.all Text.isBlank = false := h.named
  have ha : ∀ request ∈ job.plan.requests newId kind,
      (job.plan.board newId job.board kind).rejection? request = none := h.sound.accepted kind
  rw [he, hb, Board.serve_eq hc hn ha, Plan.size_board, Plan.length_requests,
    List.range'_eq_map_range, List.map_map] at hexit
  exact Prod.mk.inj hexit

/-- Every stage starts on the board that the plan leaves to it. -/
theorem entry (kind : Kind) : (job.entry kind).1 = (job.plan.requests newId kind).map some ∧
    (job.entry kind).2.canvas = job.plan.board newId job.board kind := by
  -- A stage leaves the board and the ids with which the next one starts.
  have hframe : (job.entry .frame).1 = (job.plan.requests newId .frame).map some ∧
      (job.entry .frame).2.canvas = job.plan.board newId job.board .frame := by
    constructor
    · simp [entry_frame, frameRequests, Plan.requests]
    · exact h.start
  have hbox : (job.entry .box).1 = (job.plan.requests newId .box).map some ∧
      (job.entry .box).2.canvas = job.plan.board newId job.board .box := by
    obtain ⟨ho, hc⟩ := h.exit_of_entry hframe.1 hframe.2
    refine ⟨?_, hc⟩
    rw [entry_box, ho, h.parent]
    exact boxRequests_eq h.sound
  cases kind with
  | frame => exact hframe
  | box => exact hbox
  | line =>
    obtain ⟨ho, hc⟩ := h.exit_of_entry hbox.1 hbox.2
    refine ⟨?_, hc.trans Plan.fill_board_box⟩
    rw [entry_line, ho]
    exact lineRequests_eq h.sound

theorem outcomes (kind : Kind) : job.ended.1.outcomes kind = allCreated newId job.plan kind := by
  obtain ⟨he, hb⟩ := h.entry kind
  rw [job.outcomes_ended, (h.exit_of_entry he hb).1]

theorem canvas_ended : job.ended.2.canvas = (job.plan.board newId job.board .line).fill newId
    job.board (job.plan.requests newId .line) := by
  obtain ⟨he, hb⟩ := h.entry .line
  rw [ended_state, (h.exit_of_entry he hb).2]

theorem items : job.ended.2.canvas.items.toList = job.plan.landed newId job.board .frame ++
    job.plan.landed newId job.board .box ++ job.plan.landed newId job.board .line := by
  rw [h.canvas_ended, Plan.items_fill_all]

theorem distinct (hi : Function.Injective newId) :
    (job.ended.2.canvas.items.toList.map (·.id)).Nodup := by
  rw [h.canvas_ended, Plan.board, ← Board.fill_append]
  exact Board.nodup_fill hi _

theorem report_ids (kind : Kind) : job.ended.1.report.ids kind =
    (List.range (job.plan.count kind)).map (job.plan.id newId kind) := by
  rw [ids_report, h.outcomes, allCreated, List.filterMap_map, ← List.filterMap_eq_map]
  rfl

theorem length_ids (kind : Kind) :
    (job.ended.1.report.ids kind).length = job.plan.count kind := by
  rw [h.report_ids, List.length_map, List.length_range]

end Job.Undisturbed
end Run

/-- A plan that has landed on a board: its items stand there in the order of the plan, and what they
refer to stands there under the ids by which they do. -/
structure Plan.Landed (newId : Nat → String) (name : String) (plan : Plan α) (record : Record α)
    (board : Board α) : Prop where
  completed : record.report.cancelled = false
  frames : record.report.frameIds.length = plan.frames.length
  boxes : record.report.nodeIds.length = plan.boxes.length
  lines : record.report.connectorIds.length = plan.lines.length
  ids : ∀ kind, record.report.ids kind = (List.range (plan.count kind)).map (plan.id newId kind)
  size : record.width = plan.width ∧ record.height = plan.height
  items : board.items.toList =
    plan.landed newId name .frame ++ plan.landed newId name .box ++ plan.landed newId name .line
  distinct : Function.Injective newId → (board.items.toList.map (·.id)).Nodup
  inside : ∀ box ∈ plan.boxes, ∀ place ∈ box.parent, ∃ frame, plan.frames[place]? = some frame ∧
    ⟨plan.id newId .frame place, name, .frame frame⟩ ∈ board.items
  between : ∀ line ∈ plan.lines, ∀ place ∈ [line.source, line.target], ∃ box,
    plan.boxes[place]? = some box ∧ ⟨plan.id newId .box place, name,
      .box (box.inside (box.parent.map (plan.id newId .frame)))⟩ ∈ board.items

theorem Run.Job.Undisturbed.landed [Coordinate α] {newId : Nat → String} {job : Job α (Board α)}
    (h : job.Undisturbed newId) :
    job.plan.Landed newId job.board job.ended.1 job.ended.2.canvas where
  completed := h.unstopped.cancelled
  frames := h.length_ids .frame
  boxes := h.length_ids .box
  lines := h.length_ids .line
  ids := h.report_ids
  size := ⟨rfl, rfl⟩
  items := h.items
  distinct := h.distinct
  inside box hb place hp := by
    have hlt := h.sound.parents box hb place hp
    refine ⟨_, List.getElem?_eq_getElem hlt, ?_⟩
    rw [← Array.mem_toList_iff, h.items]
    exact List.mem_append_left _ (List.mem_append_left _
      (Plan.mem_landed (Plan.requests_frame hlt)))
  between line hl place hp := by
    obtain ⟨hs, ht⟩ := h.sound.ends line hl
    have hlt : place < job.plan.boxes.length := by
      simp only [List.mem_cons, List.not_mem_nil, or_false] at hp
      rcases hp with rfl | rfl
      · exact hs
      · exact ht
    refine ⟨_, List.getElem?_eq_getElem hlt, ?_⟩
    rw [← Array.mem_toList_iff, h.items]
    exact List.mem_append_left _ (List.mem_append_right _
      (Plan.mem_landed (Plan.requests_box hlt)))

/-- Conditions in which a drawing that starts now is not stopped. -/
structure Run.Conditions.Calm (conditions : Conditions) (timeout : Option Nat) : Prop where
  atStart : ∀ number, conditions.cancelledAtStart number = false
  atFinish : ∀ count, conditions.cancelledAtFinish count = false
  inTime : ∀ seconds ∈ timeout, ∀ now, conditions.clock now < conditions.clock 0 + seconds

theorem Plan.ofText_sound {stencils : Bool} {o : Overrides Rat} {text : List Char}
    {plan : Plan Rat} (h : Plan.ofText stencils o text = .ok plan) : plan.Sound := by
  obtain ⟨diagram, -, rfl⟩ := Plan.exists_diagram h
  exact diagram.planned_sound stencils o

namespace DrawingRequest

variable [Coordinate α]

/-- What comes of a request on a board in memory with nothing on it yet. -/
def drawn (newId : Nat → String) (conditions : Conditions) (settings : Settings α)
    (request : DrawingRequest α) : Except DrawingError (Record α) × Board α :=
  let ended := request.run (Board.canvas newId) conditions settings
    { canvas := {}, cancelled := false }
  (ended.1, ended.2.canvas)

def job (newId : Nat → String) (conditions : Conditions) (settings : Settings α)
    (request : DrawingRequest α) (plan : Plan α) : Job α (Board α) where
  canvas := Board.canvas newId
  conditions
  options := {
    parent := request.parent
    concurrency := settings.concurrency
    deadline := settings.timeout.map (conditions.clock 0 + ·) }
  board := request.board
  plan
  start := { canvas := {}, cancelled := false }

variable {newId : Nat → String} {conditions : Conditions} {settings : Settings α}
  {request : DrawingRequest α} {plan : Plan α}

theorem plan_of_named (h : request.board.toList.all Text.isBlank = false) :
    request.plan settings = (Plan.ofText request.stencils
      (settings.overrides.under request.overrides) request.diagram.toList).mapError .refused := by
  rw [DrawingRequest.plan, h]
  rfl

theorem ofText_of_plan (h : request.plan settings = .ok plan) :
    Plan.ofText request.stencils (settings.overrides.under request.overrides)
      request.diagram.toList = .ok plan := by
  unfold DrawingRequest.plan at h
  split at h
  · cases h
  · cases ht : Plan.ofText request.stencils (settings.overrides.under request.overrides)
      request.diagram.toList with
    | error why => simp [ht, Except.mapError] at h
    | ok other =>
      rw [ht] at h
      cases h
      rfl

theorem drawn_of_plan (h : request.plan settings = .ok plan) :
    request.drawn newId conditions settings =
      (.ok (request.job newId conditions settings plan).ended.1,
        (request.job newId conditions settings plan).ended.2.canvas) := by
  rw [drawn, run, h]
  rfl

theorem drawn_of_error {why : DrawingError} (h : request.plan settings = .error why) :
    request.drawn newId conditions settings = (.error why, {}) := by
  rw [drawn, run, h]

theorem job_undisturbed (hn : request.board.toList.all Text.isBlank = false)
    (hp : request.parent = none) (hc : conditions.Calm settings.timeout) (hs : plan.Sound) :
    (request.job newId conditions settings plan).Undisturbed newId where
  unstopped := by
    refine ⟨rfl, hc.atStart, hc.atFinish, ?_⟩
    intro deadline hd
    obtain ⟨seconds, hm, rfl⟩ := Option.map_eq_some_iff.1 hd
    exact hc.inTime seconds hm
  canvas := rfl
  start := rfl
  named := hn
  parent := hp
  sound := hs

end DrawingRequest

/-- A diagram lands as it is planned, however many calls are in flight and however long they take.
Without a board or a diagram nothing lands. The plan is the one that the command line prints. -/
theorem diagrams_land_as_planned (newId : Nat → String) (conditions : Conditions)
    (settings : Settings Rat) (request : DrawingRequest Rat) (hp : request.parent = none)
    (hc : conditions.Calm settings.timeout) :
    (request.board.toList.all Text.isBlank = true →
      request.drawn newId conditions settings = (.error .missingBoard, {})) ∧
    (request.board.toList.all Text.isBlank = false →
      (∀ why, Plan.ofText request.stencils (settings.overrides.under request.overrides)
          request.diagram.toList = .error why →
        request.drawn newId conditions settings = (.error (.refused why), {})) ∧
      ∀ plan, Plan.ofText request.stencils (settings.overrides.under request.overrides)
          request.diagram.toList = .ok plan →
        ∃ record board, request.drawn newId conditions settings = (.ok record, board) ∧
          plan.Landed newId request.board record board) ∧
    ∀ lookup deployed, Settings.ofVariables lookup = .ok deployed →
      ∀ drawing input board text parent plan,
        (Drawing.request drawing board text parent).plan deployed = .ok plan →
        Command.run lookup newId text (.plan input drawing) = .ok (.ofJson plan.json []) := by
  refine ⟨?_, ?_, ?_⟩
  · intro hb
    apply DrawingRequest.drawn_of_error
    rw [DrawingRequest.plan, hb]
    rfl
  · intro hb
    constructor
    · intro why ht
      apply DrawingRequest.drawn_of_error
      rw [DrawingRequest.plan_of_named hb, ht]
      rfl
    · intro plan ht
      have hplan : request.plan settings = .ok plan := by
        rw [DrawingRequest.plan_of_named hb, ht]
        rfl
      have hjob : (request.job newId conditions settings plan).Undisturbed newId :=
        DrawingRequest.job_undisturbed hb hp hc (Plan.ofText_sound ht)
      exact ⟨_, _, DrawingRequest.drawn_of_plan hplan, hjob.landed⟩
  · intro lookup deployed hs drawing input board text parent plan h
    have ht := DrawingRequest.ofText_of_plan h
    change Plan.ofText drawing.stencils (deployed.overrides.under drawing.overrides)
      text.toList = .ok plan at ht
    simp [Command.run, hs, ht, Except.mapError, bind, Except.bind, pure, Except.pure]

/-- A node in a group, and two more along a chain; a width below zero is passed over. -/
def corridor : DrawingRequest Rat where
  board := "wall"
  diagram := "flowchart LR\nsubgraph hall\na([A])\nend\na --> b -.- c"
  nodeWidth := some (-1)
  stencils := true

namespace corridor

def settings : Settings Rat where
  concurrency := 2
  timeout := some 60
  overrides := { nodeWidth := some 90 }

def conditions : Conditions where
  duration number := 5 - number

end corridor

theorem corridor_lands : ∃ record board,
    corridor.drawn (identifier 7) corridor.conditions corridor.settings = (.ok record, board) ∧
      record.report.cancelled = false ∧ record.report.frameIds.length = 1 ∧
      record.report.nodeIds.length = 3 ∧ record.report.connectorIds.length = 2 := by
  have hc : corridor.conditions.Calm corridor.settings.timeout := by
    refine ⟨fun _ => rfl, fun _ => rfl, ?_⟩
    rintro seconds ⟨⟩ now
    exact Nat.zero_lt_succ 59
  have hcounts : (Plan.ofText corridor.stencils
      (corridor.settings.overrides.under corridor.overrides)
      corridor.diagram.toList).toOption.map
        (fun plan => (plan.frames.length, plan.boxes.length, plan.lines.length)) =
      some (1, 3, 2) := by
    decide +kernel
  obtain ⟨-, hlands, -⟩ := diagrams_land_as_planned (identifier 7) corridor.conditions
    corridor.settings corridor rfl hc
  obtain ⟨-, hlands⟩ := hlands (by decide)
  cases ht : Plan.ofText corridor.stencils
      (corridor.settings.overrides.under corridor.overrides) corridor.diagram.toList with
  | error why =>
    rw [ht] at hcounts
    cases hcounts
  | ok plan =>
    rw [ht] at hcounts
    obtain ⟨record, board, hd, hl⟩ := hlands plan ht
    simp only [Except.toOption, Option.map_some, Option.some.injEq, Prod.mk.injEq] at hcounts
    obtain ⟨hframes, hboxes, hlines⟩ := hcounts
    exact ⟨record, board, hd, hl.completed, hl.frames.trans hframes, hl.boxes.trans hboxes,
      hl.lines.trans hlines⟩

end Chartboard
