import Chartboard.Proofs.Run.Stages
import Mathlib.Order.Monotone.Basic

namespace Chartboard.Run

variable {α σ : Type} {setting : Setting α σ} {phase next : Phase α} {state after : State α σ}

/-- Neither the cancellation nor the clock goes back. -/
theorem Step.isStopped (h : Step setting phase state next after)
    (hm : Monotone setting.conditions.clock) (hs : state.isStopped setting = true) :
    after.isStopped setting = true := by
  cases h with
  | collect => exact hs
  | finish _ _ hn =>
    simp only [State.isStopped, State.finish, Bool.or_eq_true] at hs ⊢
    rcases hs with hc | hd
    · exact .inl (.inl hc)
    · right
      cases he : setting.deadline with
      | none => simp [he] at hd
      | some deadline =>
        simp only [he, Option.any_some, decide_eq_true_eq] at hd ⊢
        exact decide_eq_true (Nat.le_trans hd (hm hn))
  | enter =>
    rw [enter_of_stopped hs]
    exact hs

theorem Step.calls_of_stopped (h : Step setting phase state next after)
    (hs : state.isStopped setting = true) : after.calls = state.calls := by
  cases h with
  | collect => rfl
  | finish => exact calls_finish _ _ _
  | enter => rw [enter_of_stopped hs]

def Slot.isStopped : Slot α → Bool
  | .ended outcome => outcome == .stopped
  | .inFlight .. => false

@[simp] theorem isStopped_answered (answer : Answer α) :
    (Slot.ended (.ofAnswer answer) : Slot α).isStopped = false := by
  cases answer <;> rfl

@[simp] theorem isStopped_inFlight (call : Call α) (answer : Answer α) (due : Nat) :
    (Slot.inFlight call answer due).isStopped = false := rfl

def Phase.marks (phase : Phase α) : List Bool :=
  phase.slots.map Slot.isStopped

theorem enter_isStopped (item : Option (Request α) × Nat) :
    (state.enter setting item).1.isStopped = state.isStopped setting := by
  cases hs : state.isStopped setting with
  | true =>
    rw [enter_of_stopped hs]
    rfl
  | false =>
    obtain ⟨request?, place⟩ := item
    rw [enter_of_going hs]
    cases request? <;> rfl

/-- A step adds at most one mark, which says whether the run is stopped. -/
theorem Step.marks (h : Step setting phase state next after) :
    next.marks = phase.marks ∨ next.marks = phase.marks ++ [state.isStopped setting] := by
  cases h with
  | collect hw =>
    left
    simp [Phase.marks, Phase.slots, hw]
  | finish hw =>
    left
    simp [Phase.marks, Phase.slots, hw]
  | enter =>
    right
    simp [Phase.marks, Phase.slots, enter_isStopped]

/-- Marks of which only the last ones say that an item is stopped, and these only if the run is. -/
def IsCut (stopped : Bool) (marks : List Bool) : Prop :=
  ∃ going halted, marks = List.replicate going false ++ List.replicate halted true ∧
    (0 < halted → stopped = true)

theorem IsCut.nil {stopped : Bool} : IsCut stopped [] :=
  ⟨0, 0, rfl, fun h => absurd h (Nat.lt_irrefl 0)⟩

theorem IsCut.mono {stopped later : Bool} {marks : List Bool} (h : IsCut stopped marks)
    (hl : stopped = true → later = true) : IsCut later marks := by
  obtain ⟨going, halted, he, hs⟩ := h
  exact ⟨going, halted, he, fun hp => hl (hs hp)⟩

theorem IsCut.concat {stopped : Bool} {marks : List Bool} (h : IsCut stopped marks) :
    IsCut stopped (marks ++ [stopped]) := by
  obtain ⟨going, halted, rfl, hs⟩ := h
  cases stopped with
  | true => exact ⟨going, halted + 1, by rw [List.replicate_succ', List.append_assoc], fun _ => rfl⟩
  | false =>
    obtain rfl : halted = 0 := by simpa using hs
    exact ⟨going + 1, 0, by rw [List.replicate_succ']; simp, fun hp => absurd hp (Nat.lt_irrefl 0)⟩

theorem IsCut.step {earlier : List Bool} (h : Step setting phase state next after)
    (hm : Monotone setting.conditions.clock)
    (hc : IsCut (state.isStopped setting) (earlier ++ phase.marks)) :
    IsCut (after.isStopped setting) (earlier ++ next.marks) := by
  rcases h.marks with he | he
  · rw [he]
    exact hc.mono (h.isStopped hm)
  · rw [he, ← List.append_assoc]
    exact hc.concat.mono (h.isStopped hm)

/-- A call that is in flight, or that has ended since the earlier events and has left its outcome.
-/
def Awaits (call : Call α) (answer : Answer α) (earlier : List (Event α)) (phase : Phase α)
    (state : State α σ) : Prop :=
  ∃ later, state.events = later ++ earlier ∧
    ((∃ due, .inFlight call answer due ∈ phase.window) ∨
      .ended (.ofAnswer answer) ∈ phase.slots ∧ .finish call answer ∈ later)

theorem Awaits.step {call : Call α} {answer : Answer α} {earlier : List (Event α)}
    (h : Step setting phase state next after) (ha : Awaits call answer earlier phase state) :
    Awaits call answer earlier next after := by
  obtain ⟨later, he, ⟨due, hf⟩ | ⟨ho, hf⟩⟩ := ha
  · rcases h.inFlight_mem hf with hm | ⟨ho, hv⟩
    · obtain ⟨more, hv⟩ := h.events
      exact ⟨more ++ later, by rw [hv, he, List.append_assoc], .inl ⟨due, hm⟩⟩
    · exact ⟨.finish call answer :: later, by rw [hv, he]; rfl, .inr ⟨ho, List.mem_cons_self⟩⟩
  · obtain ⟨more, hv⟩ := h.events
    exact ⟨more ++ later, by rw [hv, he, List.append_assoc],
      .inr ⟨h.ended_mem ho, List.mem_append_right more hf⟩⟩

namespace Job

variable {job : Job α σ} {kind : Kind}

/-- What every step preserves holds at the end of a run if it holds anywhere on its way. -/
theorem Passes.final {P : State α σ → Prop} (h : job.Passes kind phase state)
    (hs : ∀ {phase state next after}, Step job.setting phase state next after → P state → P after)
    (hp : P state) : P job.ended.2 := by
  have hstage : ∀ kind, P (job.entry kind).2 → P (job.exit kind).2 := by
    intro kind hk
    exact (job.passes_entry kind).reaches.invariant (P := fun _ s => P s) hs hk
  have hexit : P (job.exit kind).2 := h.reaches.invariant (P := fun _ s => P s) hs hp
  -- The stages after this one start where the one before them has ended.
  cases kind with
  | frame => exact hstage .line (hstage .box hexit)
  | box => exact hstage .line hexit
  | line => exact hexit

/-- A stage leaves what comes before it and its own items cut where the run is stopped. -/
theorem isCut_exit (hm : Monotone job.conditions.clock) {earlier : List Bool} (kind : Kind)
    (h : IsCut ((job.entry kind).2.isStopped job.setting) earlier) :
    IsCut ((job.exit kind).2.isStopped job.setting)
      (earlier ++ (job.exit kind).1.map (· == .stopped)) := by
  have hr := (job.passes_entry kind).reaches.invariant
    (P := fun p s => IsCut (s.isStopped job.setting) (earlier ++ p.marks))
    (fun hs => IsCut.step hs hm)
    (by simpa [Phase.marks, Phase.slots] using h)
  simpa [Phase.marks, slots_last, Function.comp_def, Slot.isStopped] using hr

end Job

/-- Outcomes whose marks are cut end in those of the items that were stopped. -/
theorem exists_kept {outcomes : List Outcome} {stopped : Bool}
    (h : IsCut stopped (outcomes.map (· == .stopped))) :
    ∃ kept halted, outcomes = kept ++ List.replicate halted .stopped ∧ .stopped ∉ kept := by
  obtain ⟨going, halted, he, -⟩ := h
  obtain ⟨kept, last, rfl, hk, hl⟩ := List.map_eq_append_iff.1 he
  have hlast : last = List.replicate halted .stopped := by
    apply List.eq_replicate_iff.2
    constructor
    · rw [← List.length_map (f := (· == Outcome.stopped)), hl, List.length_replicate]
    · intro outcome hm
      have ht : (outcome == .stopped) ∈ last.map (· == .stopped) := List.mem_map_of_mem hm
      rw [hl] at ht
      exact beq_iff_eq.1 (List.eq_of_mem_replicate ht)
  refine ⟨kept, halted, by rw [hlast], ?_⟩
  · intro hm
    have ht : (Outcome.stopped == .stopped) ∈ kept.map (· == .stopped) := List.mem_map_of_mem hm
    rw [hk] at ht
    exact absurd (List.eq_of_mem_replicate ht) (by decide)

/-- The outcomes of all stages one after another are cut. -/
theorem Job.isCut_ended (job : Job α σ) (hm : Monotone job.conditions.clock) :
    IsCut (job.ended.2.isStopped job.setting)
      ((job.ended.1.frames ++ job.ended.1.boxes ++ job.ended.1.lines).map (· == .stopped)) := by
  have hf := Job.isCut_exit hm .frame .nil
  have hb := Job.isCut_exit hm .box hf
  have hl := Job.isCut_exit hm .line hb
  rw [List.map_append, List.map_append]
  exact hl

/-- Conditions in which a run has no deadline and is not cancelled. -/
structure Job.Quiet (job : Job α σ) : Prop where
  start : job.start.cancelled = false
  atStart : ∀ number, job.conditions.cancelledAtStart number = false
  atFinish : ∀ count, job.conditions.cancelledAtFinish count = false
  deadline : job.options.deadline = none

/-- Conditions in which nothing stops a run: it is not cancelled, and its time is never over. -/
structure Job.Unstopped (job : Job α σ) : Prop where
  start : job.start.cancelled = false
  atStart : ∀ number, job.conditions.cancelledAtStart number = false
  atFinish : ∀ count, job.conditions.cancelledAtFinish count = false
  inTime : ∀ deadline ∈ job.options.deadline, ∀ now, job.conditions.clock now < deadline

namespace Job.Unstopped

variable {job : Job α σ} (hu : job.Unstopped)
include hu

theorem isStopped (hc : state.cancelled = false) : state.isStopped job.setting = false := by
  rw [State.isStopped, hc, Bool.false_or, ← Bool.not_eq_true]
  intro hd
  obtain ⟨deadline, hm, hle⟩ := (Option.any_eq_true ..).1 hd
  exact Nat.not_le_of_lt (hu.inTime deadline hm state.now) (of_decide_eq_true hle)

theorem step (h : Step job.setting phase state next after) (hc : state.cancelled = false) :
    after.cancelled = false := by
  cases h with
  | collect => exact hc
  | finish => exact Bool.or_eq_false_iff.2 ⟨hc, hu.atFinish _⟩
  | @enter item =>
    obtain ⟨request?, place⟩ := item
    rw [enter_of_going (hu.isStopped hc)]
    cases request? with
    | none => exact hc
    | some request => exact Bool.or_eq_false_iff.2 ⟨hc, hu.atStart _⟩

theorem entry (kind : Kind) : (job.entry kind).2.cancelled = false := by
  have hstage : ∀ kind, (job.entry kind).2.cancelled = false →
      (job.exit kind).2.cancelled = false := by
    intro kind hk
    exact (job.passes_entry kind).reaches.invariant (P := fun _ s => s.cancelled = false)
      (fun hs => hu.step hs) hk
  cases kind with
  | frame => exact hu.start
  | box => exact hstage .frame hu.start
  | line => exact hstage .box (hstage .frame hu.start)

/-- Whatever a run passes through, it is not cancelled there and no item is stopped. -/
theorem passes {kind : Kind} (h : job.Passes kind phase state) :
    state.cancelled = false ∧ true ∉ phase.marks := by
  refine Reaches.invariant (P := fun p s => s.cancelled = false ∧ true ∉ p.marks) h ?_
    ⟨hu.entry kind, List.not_mem_nil⟩
  rintro _ _ _ _ hs ⟨hc, hm⟩
  refine ⟨hu.step hs hc, ?_⟩
  rcases hs.marks with he | he
  · rw [he]
    exact hm
  · rw [he, hu.isStopped hc]
    simpa using hm

theorem cancelled : job.ended.1.report.cancelled = false := by
  have hstage : ∀ kind, .stopped ∉ (job.exit kind).1 := by
    intro kind ho
    apply (hu.passes ((job.passes_entry kind).trans (job.passes_entry kind).reaches)).2
    rw [Phase.marks, slots_last]
    exact List.mem_map.2 ⟨_, List.mem_map_of_mem ho, rfl⟩
  rw [← Bool.not_eq_true, cancelled_iff, List.mem_append, List.mem_append, not_or, not_or]
  exact ⟨⟨hstage .frame, hstage .box⟩, hstage .line⟩

end Job.Unstopped

theorem Job.Quiet.cancelled {job : Job α σ} (hq : job.Quiet) :
    job.ended.1.report.cancelled = false :=
  Unstopped.cancelled ⟨hq.start, hq.atStart, hq.atFinish, by simp [hq.deadline]⟩

/-- A call in flight ends before its stage does, and its id is among those of its stage. -/
theorem Job.Passes.awaited {job : Job α σ} {kind : Kind} (h : job.Passes kind phase state)
    {call : Call α} {answer : Answer α} {due : Nat}
    (hf : .inFlight call answer due ∈ phase.window) :
    (∃ later, job.ended.2.events = later ++ state.events ∧ .finish call answer ∈ later) ∧
      .ofAnswer answer ∈ job.ended.1.outcomes kind := by
  have ha : Awaits call answer state.events phase state := ⟨[], rfl, .inl ⟨due, hf⟩⟩
  obtain ⟨later, he, ⟨due, hd⟩ | ⟨ho, hl⟩⟩ :=
    h.reaches.invariant (P := Awaits call answer state.events) Awaits.step ha
  · -- At the end of its stage nothing is in flight.
    exact absurd hd List.not_mem_nil
  · constructor
    · refine (h.trans h.reaches).final (P := fun s => ∃ later, s.events = later ++ state.events ∧
        .finish call answer ∈ later) ?_ ⟨later, he, hl⟩
      rintro _ _ _ _ hs ⟨later, he, hl⟩
      obtain ⟨more, hm⟩ := hs.events
      exact ⟨more ++ later, by rw [hm, he, List.append_assoc], List.mem_append_right more hl⟩
    · rw [slots_last] at ho
      rw [job.outcomes_ended]
      simpa using ho

/-- A stop cuts a run once: the items that are stopped are the last ones, no call starts afterwards,
and every call that was in flight ends, is seen to end, and leaves its id in the report. -/
theorem stopped_runs_are_cut (job : Job α σ) (hm : Monotone job.conditions.clock) :
    (∃ kept halted, job.ended.1.frames ++ job.ended.1.boxes ++ job.ended.1.lines =
        kept ++ List.replicate halted .stopped ∧ .stopped ∉ kept ∧
      (job.ended.1.report.cancelled = true ↔ 0 < halted)) ∧
    ∀ kind phase state, job.Passes kind phase state → state.isStopped job.setting = true →
      job.ended.2.calls = state.calls ∧
      ∀ call answer due, .inFlight call answer due ∈ phase.window →
        (∃ later, job.ended.2.events = later ++ state.events ∧ .finish call answer ∈ later) ∧
        ∀ id, answer = .ok id → id ∈ job.ended.1.report.ids kind := by
  constructor
  · obtain ⟨kept, halted, he, hk⟩ := exists_kept (job.isCut_ended hm)
    refine ⟨kept, halted, he, hk, ?_⟩
    rw [cancelled_iff, he, List.mem_append, List.mem_replicate]
    simp [hk, Nat.pos_iff_ne_zero]
  · intro kind phase state hp hs
    -- No step from a stopped state starts a call, and every step leads to a stopped state again.
    have hcalls : ∀ {p s q t}, Step job.setting p s q t →
        s.isStopped job.setting = true ∧ s.calls = state.calls →
          t.isStopped job.setting = true ∧ t.calls = state.calls := by
      rintro _ _ _ _ h ⟨hs, hc⟩
      exact ⟨h.isStopped hm hs, (h.calls_of_stopped hs).trans hc⟩
    refine ⟨(hp.final (P := fun s => s.isStopped job.setting = true ∧ s.calls = state.calls)
      hcalls ⟨hs, rfl⟩).2, ?_⟩
    intro call answer due hf
    obtain ⟨hl, ho⟩ := hp.awaited hf
    refine ⟨hl, ?_⟩
    rintro id rfl
    rw [ids_report]
    exact List.mem_filterMap.2 ⟨_, ho, rfl⟩

/-- Three boxes and a line between two of them, for which the time is over after the first calls. -/
def late : Job Nat Unit where
  canvas := ⟨fun s call => (.ok call.board, s)⟩
  conditions := { duration := fun number => number + 1, clock := fun now => 3 * now }
  options := { concurrency := 2, deadline := some 2 }
  board := "board"
  plan := {
    frames := []
    boxes := List.replicate 3 ⟨.rectangle, false, "box", 0, 0, 1, 1, none, none, none⟩
    lines := [⟨0, 1, none, .solid, .straight, .none, .arrow⟩]
    width := 1
    height := 1 }
  start := { canvas := (), cancelled := false }

theorem late_is_cut : late.ended.1.report.cancelled = true ∧
    ∃ kept halted, late.ended.1.frames ++ late.ended.1.boxes ++ late.ended.1.lines =
      kept ++ List.replicate halted .stopped ∧ 0 < halted := by
  have hm : Monotone late.conditions.clock := fun _ _ h => Nat.mul_le_mul_left 3 h
  have hc : late.ended.1.report.cancelled = true := by decide +kernel
  obtain ⟨⟨kept, halted, he, -, hs⟩, -⟩ := stopped_runs_are_cut late hm
  exact ⟨hc, kept, halted, he, hs.1 hc⟩

end Chartboard.Run
