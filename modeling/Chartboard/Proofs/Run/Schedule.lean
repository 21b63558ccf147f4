import Chartboard.Proofs.Run.Fates
import Chartboard.Proofs.Run.Stopping

namespace Chartboard.Run

variable {α σ : Type}

theorem Fate.Of.eq {first second : Setting α σ} {number : Nat} {item : Option (Request α) × Nat}
    {fate other : Fate α} (hf : fate.Of first number item) (hs : other.Of second number item)
    (hb : first.board = second.board)
    (ha : ∀ s t call, (first.canvas.answer s call).1 = (second.canvas.answer t call).1)
    (hn : fate.outcome ≠ .stopped) (hm : other.outcome ≠ .stopped) : fate = other := by
  cases hf with
  | stopped => exact absurd rfl hn
  | unresolved =>
    cases hs with
    | stopped => exact absurd rfl hm
    | unresolved => rfl
  | called s =>
    cases hs with
    | stopped => exact absurd rfl hm
    | called t => rw [hb, ha s t]

/-- Items of which none is stopped have the same fates before canvases that answer alike. -/
theorem Served.eq {first second : Setting α σ} {number : Nat}
    {items : List (Option (Request α) × Nat)} {fates others : List (Fate α)}
    (hf : Served first number items fates) (hs : Served second number items others)
    (hb : first.board = second.board)
    (ha : ∀ s t call, (first.canvas.answer s call).1 = (second.canvas.answer t call).1)
    (hn : .stopped ∉ fates.map Fate.outcome) (hm : .stopped ∉ others.map Fate.outcome) :
    fates = others := by
  -- An item that is not stopped has one fate left, so the numbers of later calls are the same too.
  induction hf generalizing others with
  | nil =>
    cases hs
    rfl
  | cons hfate hrest ih =>
    cases hs with
    | cons hother hothers =>
      rw [List.map_cons, List.mem_cons, not_or] at hn hm
      have he := hfate.eq hother hb ha (Ne.symm hn.1) (Ne.symm hm.1)
      subst he
      rw [ih hothers hn.2 hm.2]

/-- Whether the item of a kind at a place was created. -/
def Record.Created (record : Record α) (kind : Kind) (place : Nat) : Prop :=
  ∃ id, (record.outcomes kind)[place]? = some (.created id)

theorem Record.eq_of_outcomes {a b : Record α} (ho : ∀ kind, a.outcomes kind = b.outcomes kind)
    (hw : a.width = b.width) (hh : a.height = b.height) : a = b := by
  obtain ⟨frames, boxes, lines, width, height⟩ := a
  obtain rfl : frames = b.frames := ho .frame
  obtain rfl : boxes = b.boxes := ho .box
  obtain rfl : lines = b.lines := ho .line
  obtain rfl : width = b.width := hw
  obtain rfl : height = b.height := hh
  rfl

/-- What two runs have in common before or after a stage. -/
structure Agree (a b : β × State α σ) : Prop where
  fst : a.1 = b.1
  calls : a.2.calls = b.2.calls
  started : a.2.started = b.2.started

namespace Job

/-- The same job in other conditions, with another window and another deadline. -/
def under (job : Job α σ) (conditions : Conditions) (concurrency : Nat) (deadline : Option Nat) :
    Job α σ :=
  { job with conditions, options := { job.options with concurrency, deadline } }

/-- The answers of a job's canvas are those for the kind and the place of the item. -/
def Answers (job : Job α σ) (answers : Kind → Nat → Answer α) : Prop :=
  ∀ s call, (job.canvas.answer s call).1 = answers call.request.kind call.place

variable {job : Job α σ} {conditions : Conditions} {concurrency : Nat} {deadline : Option Nat}
  {answers : Kind → Nat → Answer α}

/-- A stage keeps the agreement of two runs that are not stopped in it. -/
theorem agree_exit {kind : Kind} (hc : job.Answers answers)
    (h : Agree (job.entry kind) ((job.under conditions concurrency deadline).entry kind))
    (hn : .stopped ∉ (job.exit kind).1)
    (hm : .stopped ∉ ((job.under conditions concurrency deadline).exit kind).1) :
    Agree (job.exit kind) ((job.under conditions concurrency deadline).exit kind) := by
  obtain ⟨fates, hf, ho, hcalls, hs, -⟩ := job.exists_fates kind
  obtain ⟨others, hf', ho', hcalls', hs', -⟩ :=
    (job.under conditions concurrency deadline).exists_fates kind
  have ha : ∀ s t call, (job.setting.canvas.answer s call).1 =
      ((job.under conditions concurrency deadline).setting.canvas.answer t call).1 := by
    intro s t call
    exact (hc s call).trans (hc t call).symm
  rw [← h.fst, ← h.started] at hf'
  rw [ho] at hn
  rw [ho'] at hm
  obtain rfl : fates = others := hf.eq hf' rfl ha hn hm
  exact ⟨by rw [ho, ho'], by rw [hcalls, hcalls', h.calls], by rw [hs, hs', h.started]⟩

/-- Every stage of two runs that are never stopped ends alike. -/
theorem agree_all (hc : job.Answers answers) (hn : job.ended.1.report.cancelled = false)
    (hm : (job.under conditions concurrency deadline).ended.1.report.cancelled = false)
    (kind : Kind) :
    Agree (job.exit kind) ((job.under conditions concurrency deadline).exit kind) := by
  have hstage : ∀ kind,
      Agree (job.entry kind) ((job.under conditions concurrency deadline).entry kind) →
      Agree (job.exit kind) ((job.under conditions concurrency deadline).exit kind) := by
    intro kind h
    apply agree_exit hc h
    · rw [← job.outcomes_ended]
      exact stopped_not_mem hn kind
    · rw [← Job.outcomes_ended]
      exact stopped_not_mem hm kind
  -- The ids of one stage are all that the requests of the next one take from it.
  have hframes := hstage .frame ⟨rfl, rfl, rfl⟩
  have hboxes := hstage .box ⟨by rw [entry_box, entry_box, hframes.fst]; rfl, hframes.calls,
    hframes.started⟩
  have hlines := hstage .line ⟨by rw [entry_line, entry_line, hboxes.fst]; rfl, hboxes.calls,
    hboxes.started⟩
  cases kind with
  | frame => exact hframes
  | box => exact hboxes
  | line => exact hlines

/-- An item of a run that is never stopped is created if it is asked for and its call succeeds. -/
theorem created_iff (hc : job.Answers answers) (hn : job.ended.1.report.cancelled = false)
    (kind : Kind) (place : Nat) : job.ended.1.Created kind place ↔
      (∃ request, (job.entry kind).1[place]? = some (some request)) ∧
        ∃ id, answers kind place = .ok id := by
  obtain ⟨fates, hf, ho, -⟩ := job.exists_fates kind
  have hs := stopped_not_mem hn kind
  rw [Record.Created, job.outcomes_ended, ho]
  rw [job.outcomes_ended, ho] at hs
  cases hr : (job.entry kind).1[place]? with
  | none =>
    have hle := List.getElem?_eq_none_iff.1 hr
    rw [← List.length_zipIdx (i := 0), ← hf.length_eq] at hle
    simp [List.getElem?_eq_none hle]
  | some request? =>
    have hi : (job.entry kind).1.zipIdx[place]? = some (request?, place) := by
      rw [List.getElem?_zipIdx, hr]
      simp
    obtain ⟨number, fate, hfate, hof⟩ := hf.getElem? hi
    have hmem : fate.outcome ∈ fates.map Fate.outcome :=
      List.mem_map_of_mem (List.mem_of_getElem? hfate)
    rw [List.getElem?_map, hfate]
    cases hof with
    | stopped => exact absurd hmem hs
    | unresolved => simp [Fate.outcome]
    | @called request _ s =>
      have hk : request.kind = kind := kind_of_mem (List.mem_of_getElem? hr)
      have ha := hc s ⟨number, place, job.setting.board, request⟩
      rw [hk] at ha
      change ((job.setting.canvas.answer s _).1 = _) at ha
      rw [ha]
      cases answers kind place <;> simp [Fate.outcome, Outcome.ofAnswer]

theorem exists_getElem?_map_some {items : List β} (f : β → Request α) {place : Nat} :
    (∃ request, (items.map fun item => some (f item))[place]? = some (some request)) ↔
      place < items.length := by
  rw [List.getElem?_map]
  constructor
  · rintro ⟨request, h⟩
    obtain ⟨item, hi, -⟩ := Option.map_eq_some_iff.1 h
    exact (List.getElem?_eq_some_iff.1 hi).1
  · intro h
    exact ⟨_, by rw [List.getElem?_eq_getElem h]; rfl⟩

theorem frame_asked_iff {place : Nat} :
    (∃ request, (job.entry .frame).1[place]? = some (some request)) ↔
      place < job.plan.frames.length :=
  exists_getElem?_map_some _

theorem box_asked_iff {place : Nat} :
    (∃ request, (job.entry .box).1[place]? = some (some request)) ↔
      place < job.plan.boxes.length :=
  exists_getElem?_map_some _

theorem line_asked_iff {place : Nat} (h : place < job.plan.lines.length) :
    (∃ request, (job.entry .line).1[place]? = some (some request)) ↔
      job.ended.1.Created .box job.plan.lines[place].source ∧
        job.ended.1.Created .box job.plan.lines[place].target := by
  rw [entry_line, lineRequests, List.getElem?_map, List.getElem?_eq_getElem h]
  simp only [Option.map_some, Option.some.injEq, Option.bind_eq_bind, Option.bind_eq_some_iff,
    Option.pure_def, getElem?_ids, Record.Created, job.outcomes_ended]
  constructor
  · rintro ⟨request, source, hs, target, ht, -⟩
    exact ⟨⟨source, hs⟩, ⟨target, ht⟩⟩
  · rintro ⟨⟨source, hs⟩, ⟨target, ht⟩⟩
    exact ⟨_, source, hs, target, ht, rfl⟩

end Job

/-- Two runs of one job that are never stopped make the same calls in the same order and end alike,
whatever the conditions and the window. In both, what is created is what is asked for with success.
-/
theorem runs_agree_on_any_schedule (job : Job α σ) {answers : Kind → Nat → Answer α}
    (hc : job.Answers answers) (conditions : Conditions) (concurrency : Nat) (deadline : Option Nat)
    (hn : job.ended.1.report.cancelled = false)
    (hm : (job.under conditions concurrency deadline).ended.1.report.cancelled = false) :
    (job.under conditions concurrency deadline).ended.2.calls = job.ended.2.calls ∧
    (job.under conditions concurrency deadline).ended.1 = job.ended.1 ∧
    (∀ i < job.plan.frames.length,
      job.ended.1.Created .frame i ↔ ∃ id, answers .frame i = .ok id) ∧
    (∀ j < job.plan.boxes.length, job.ended.1.Created .box j ↔ ∃ id, answers .box j = .ok id) ∧
    ∀ k, (hk : k < job.plan.lines.length) → (job.ended.1.Created .line k ↔
      job.plan.lines[k].source < job.plan.boxes.length ∧
      job.plan.lines[k].target < job.plan.boxes.length ∧
      job.ended.1.Created .box job.plan.lines[k].source ∧
      job.ended.1.Created .box job.plan.lines[k].target ∧ ∃ id, answers .line k = .ok id) := by
  have hagree := Job.agree_all hc hn hm
  have hbox : ∀ j, job.ended.1.Created .box j ↔
      j < job.plan.boxes.length ∧ ∃ id, answers .box j = .ok id := by
    intro j
    rw [Job.created_iff hc hn, Job.box_asked_iff]
  refine ⟨?_, ?_, ?_, ?_, ?_⟩
  · rw [Job.ended_state, Job.ended_state, (hagree .line).calls]
  · refine Record.eq_of_outcomes ?_ rfl rfl
    intro kind
    rw [Job.outcomes_ended, Job.outcomes_ended, (hagree kind).fst]
  · intro i hi
    rw [Job.created_iff hc hn, Job.frame_asked_iff]
    exact and_iff_right hi
  · intro j hj
    rw [hbox]
    exact and_iff_right hj
  · intro k hk
    rw [Job.created_iff hc hn, Job.line_asked_iff hk, and_assoc]
    constructor
    · rintro ⟨hs, ht, ha⟩
      exact ⟨((hbox _).1 hs).1, ((hbox _).1 ht).1, hs, ht, ha⟩
    · rintro ⟨-, -, hs, ht, ha⟩
      exact ⟨hs, ht, ha⟩

def replies : Kind → Nat → Answer Nat
  | .box, 1 => .error (.unavailable "busy")
  | .box, _ => .ok "box"
  | _, _ => .ok "item"

/-- The job that was late, without a deadline and with calls that overtake one another. -/
def patient : Job Nat Unit :=
  { late with
    canvas := ⟨fun s call => (replies call.request.kind call.place, s)⟩
    conditions := { duration := fun number => 5 - number }
    options := { concurrency := 0 } }

theorem patient_on_any_schedule :
    (patient.under { duration := id } 3 none).ended.2.calls = patient.ended.2.calls ∧
      (patient.under { duration := id } 3 none).ended.1 = patient.ended.1 ∧
      patient.ended.1.Created .box 0 ∧ ¬ patient.ended.1.Created .line 0 := by
  have hc : patient.Answers replies := fun _ _ => rfl
  have hn : patient.Quiet := ⟨rfl, fun _ => rfl, fun _ => rfl, rfl⟩
  have hm : (patient.under { duration := id } 3 none).Quiet :=
    ⟨rfl, fun _ => rfl, fun _ => rfl, rfl⟩
  obtain ⟨hcalls, hr, -, hb, hl⟩ :=
    runs_agree_on_any_schedule patient hc { duration := id } 3 none hn.cancelled hm.cancelled
  refine ⟨hcalls, hr, (hb 0 (by decide)).2 ⟨"box", rfl⟩, ?_⟩
  intro h
  obtain ⟨-, -, -, ht, -⟩ := (hl 0 (by decide)).1 h
  obtain ⟨id, hid⟩ := (hb 1 (by decide)).1 ht
  exact absurd hid (by simp [replies])

end Chartboard.Run
