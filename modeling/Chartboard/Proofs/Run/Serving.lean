import Chartboard.Proofs.Run.Stopping

namespace Chartboard.Run

variable {α σ : Type} {setting : Setting α σ} {phase next : Phase α} {state after : State α σ}

/-- How items end whose calls are made one after another, with numbers from a number on, and in what
state they leave the canvas. -/
def serve (setting : Setting α σ) : Nat → σ → List (Option (Request α) × Nat) → List Outcome × σ
  | _, canvas, [] => ([], canvas)
  | number, canvas, (none, _) :: items =>
    let rest := serve setting number canvas items
    (.unresolved :: rest.1, rest.2)
  | number, canvas, (some request, place) :: items =>
    let answered := setting.canvas.answer canvas ⟨number, place, setting.board, request⟩
    let rest := serve setting (number + 1) answered.2 items
    (.ofAnswer answered.1 :: rest.1, rest.2)

def Slot.outcome : Slot α → Outcome
  | .ended outcome => outcome
  | .inFlight _ answer _ => .ofAnswer answer

/-- How all items will have ended if those that still wait are served one after another. -/
def Phase.expected (setting : Setting α σ) (phase : Phase α) (state : State α σ) :
    List Outcome × σ :=
  let rest := serve setting state.started state.canvas phase.waiting
  (phase.slots.map Slot.outcome ++ rest.1, rest.2)

theorem enter_serve (h : state.isStopped setting = false) (item : Option (Request α) × Nat)
    (items : List (Option (Request α) × Nat)) :
    serve setting state.started state.canvas (item :: items) =
      let entered := state.enter setting item
      let rest := serve setting entered.2.started entered.2.canvas items
      (entered.1.outcome :: rest.1, rest.2) := by
  obtain ⟨request?, place⟩ := item
  rw [enter_of_going h]
  cases request? <;> rfl

/-- No step of a run that goes on changes what is expected of it. -/
theorem Step.expected (h : Step setting phase state next after)
    (hs : state.isStopped setting = false) :
    next.expected setting after = phase.expected setting state := by
  cases h with
  | collect hw => simp [Phase.expected, Phase.slots, hw, Slot.outcome]
  | finish hw => simp [Phase.expected, Phase.slots, hw, Slot.outcome, State.finish]
  | enter hw =>
    rw [Phase.expected, Phase.expected, hw, enter_serve hs]
    simp [Phase.slots]

/-- An unstopped stage ends as if its items had been served one after another. -/
theorem Job.Unstopped.exit_eq {job : Job α σ} (hu : job.Unstopped) (kind : Kind) :
    ((job.exit kind).1, (job.exit kind).2.canvas) =
      serve job.setting (job.entry kind).2.started (job.entry kind).2.canvas
        (job.entry kind).1.zipIdx := by
  have hr := (job.passes_entry kind).reaches.invariant
    (P := fun p s => s.cancelled = false ∧
      p.expected job.setting s = serve job.setting (job.entry kind).2.started
        (job.entry kind).2.canvas (job.entry kind).1.zipIdx)
    (fun hs hp => ⟨hu.step hs hp.1, (hs.expected (hu.isStopped hp.1)).trans hp.2⟩)
    ⟨hu.entry kind, rfl⟩
  -- At the end nothing waits, so what was expected is what there is.
  rw [← hr.2, Phase.expected, slots_last, List.map_map]
  simp [serve, Function.comp_def, Slot.outcome]

end Chartboard.Run
