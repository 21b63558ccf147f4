import Chartboard.Proofs.Run.Steps

namespace Chartboard

inductive Kind where
  | frame
  | box
  | line
deriving DecidableEq

def Request.kind : Request α → Kind
  | .frame _ => .frame
  | .box _ => .box
  | .line _ => .line

namespace Run

variable {α σ : Type}

def Record.outcomes (record : Record α) : Kind → List Outcome
  | .frame => record.frames
  | .box => record.boxes
  | .line => record.lines

def Report.ids (report : Report α) : Kind → List String
  | .frame => report.frameIds
  | .box => report.nodeIds
  | .line => report.connectorIds

theorem ids_report (record : Record α) (kind : Kind) :
    record.report.ids kind = (record.outcomes kind).filterMap Outcome.id? := by
  cases kind <;> rfl

theorem getElem?_ids {outcomes : List Outcome} {place : Nat} {id : String} :
    (ids outcomes)[place]?.join = some id ↔ outcomes[place]? = some (.created id) := by
  rw [ids, List.getElem?_toArray, List.getElem?_map]
  cases outcomes[place]? with
  | none => simp
  | some outcome => cases outcome <;> simp [Outcome.id?]

theorem cancelled_iff (record : Record α) : record.report.cancelled = true ↔
    .stopped ∈ record.frames ++ record.boxes ++ record.lines := by
  rw [Record.report, List.contains_iff_mem]

/-- A run that is not cancelled stopped before no item. -/
theorem stopped_not_mem {record : Record α} (h : record.report.cancelled = false) (kind : Kind) :
    .stopped ∉ record.outcomes kind := by
  rw [← Bool.not_eq_true, cancelled_iff, List.mem_append, List.mem_append, not_or, not_or] at h
  cases kind with
  | frame => exact h.1.1
  | box => exact h.1.2
  | line => exact h.2

theorem ofAnswer_eq_created {answer : Answer α} {id : String} :
    Outcome.ofAnswer answer = .created id ↔ answer = .ok id := by
  cases answer <;> simp [Outcome.ofAnswer]

theorem kind_of_frameRequests {plan : Plan α} {request : Request α}
    (h : some request ∈ frameRequests plan) : request.kind = .frame := by
  simp only [frameRequests, List.mem_map, Option.some.injEq] at h
  obtain ⟨item, -, rfl⟩ := h
  rfl

theorem kind_of_boxRequests {parent : Option String} {frames : Array (Option String)}
    {plan : Plan α} {request : Request α} (h : some request ∈ boxRequests parent frames plan) :
    request.kind = .box := by
  simp only [boxRequests, List.mem_map, Option.some.injEq] at h
  obtain ⟨item, -, rfl⟩ := h
  rfl

/-- The call whose start is seen. -/
def Event.started? : Event α → Option (Call α)
  | .start call => some call
  | .finish .. => none

/-- The calls of a run in the order of their starts. -/
def State.calls (state : State α σ) : List (Call α) :=
  state.events.reverse.filterMap Event.started?

theorem calls_finish {setting : Setting α σ} (state : State α σ) (call : Call α)
    (answer : Answer α) : (state.finish setting call answer).calls = state.calls := by
  simp [State.calls, State.finish, Event.started?]

/-- Everything that a run depends on. -/
structure Job (α σ : Type) where
  canvas : Canvas α σ
  conditions : Conditions
  options : Options
  board : String
  plan : Plan α
  start : State α σ

namespace Job

def ended (job : Job α σ) : Record α × State α σ :=
  job.plan.run job.canvas job.conditions job.options job.board job.start

def setting (job : Job α σ) : Setting α σ :=
  ⟨job.canvas, job.conditions, job.board, max 1 job.options.concurrency, job.options.deadline⟩

/-- The requests of a stage, and the state in which it starts. -/
def entry (job : Job α σ) : Kind → List (Option (Request α)) × State α σ
  | .frame => (frameRequests job.plan, job.start)
  | .box =>
    let frames := all job.setting (frameRequests job.plan) job.start
    (boxRequests job.options.parent (ids frames.1) job.plan, frames.2)
  | .line =>
    let frames := all job.setting (frameRequests job.plan) job.start
    let boxes :=
      all job.setting (boxRequests job.options.parent (ids frames.1) job.plan) frames.2
    (lineRequests (ids boxes.1) job.plan, boxes.2)

/-- The outcomes of a stage, and the state in which it ends. -/
def exit (job : Job α σ) (kind : Kind) : List Outcome × State α σ :=
  all job.setting (job.entry kind).1 (job.entry kind).2

variable (job : Job α σ)

theorem outcomes_ended (kind : Kind) : job.ended.1.outcomes kind = (job.exit kind).1 := by
  cases kind <;> rfl

theorem entry_frame : job.entry .frame = (frameRequests job.plan, job.start) := rfl

theorem entry_box : job.entry .box =
    (boxRequests job.options.parent (ids (job.exit .frame).1) job.plan, (job.exit .frame).2) := rfl

theorem entry_line : job.entry .line =
    (lineRequests (ids (job.exit .box).1) job.plan, (job.exit .box).2) := rfl

theorem ended_state : job.ended.2 = (job.exit .line).2 := rfl

theorem width_pos : 0 < job.setting.width :=
  Nat.lt_of_lt_of_le Nat.one_pos (Nat.le_max_left _ _)

/-- The phases and states that a run passes through in one of its stages. -/
def Passes (kind : Kind) (phase : Phase α) (state : State α σ) : Prop :=
  Reaches job.setting ({ waiting := (job.entry kind).1.zipIdx }, (job.entry kind).2) (phase, state)

theorem passes_entry (kind : Kind) :
    job.Passes kind { waiting := (job.entry kind).1.zipIdx } (job.entry kind).2 := .refl

variable {job} {kind : Kind} {phase : Phase α} {state : State α σ}

theorem kind_of_mem {request : Request α} (h : some request ∈ (job.entry kind).1) :
    request.kind = kind := by
  cases kind with
  | frame => exact kind_of_frameRequests h
  | box => exact kind_of_boxRequests h
  | line =>
    simp only [entry_line, lineRequests, List.mem_map] at h
    obtain ⟨item, -, h⟩ := h
    simp only [Option.bind_eq_bind, Option.bind_eq_some_iff, Option.pure_def,
      Option.some.injEq] at h
    obtain ⟨source, -, target, -, rfl⟩ := h
    rfl

/-- From everything that a stage passes through it goes on to its end. -/
theorem Passes.reaches (h : job.Passes kind phase state) : Reaches job.setting (phase, state)
    (⟨[], [], (job.exit kind).1.reverse⟩, (job.exit kind).2) := by
  obtain ⟨outcomes, final, he, hr⟩ := exists_last job.width_pos phase state
  have hx : job.exit kind = (outcomes, final) := h.run_eq.symm.trans he
  rw [hx]
  exact hr

theorem Passes.trans {next : Phase α} {after : State α σ} (h : job.Passes kind phase state)
    (hr : Reaches job.setting (phase, state) (next, after)) : job.Passes kind next after :=
  Relation.ReflTransGen.trans h hr

end Job
end Run
end Chartboard
