import Chartboard.Canvas.Message

namespace Chartboard.Run

inductive Outcome where
  | created (id : String)
  | failed
  /-- It refers to an item that was not created. -/
  | unresolved
  /-- The run was stopped before its call. -/
  | stopped
deriving DecidableEq

def Outcome.id? : Outcome → Option String
  | created id => some id
  | _ => none

def Outcome.ofAnswer : Answer α → Outcome
  | .ok id => .created id
  | .error _ => .failed

/-- What is seen of a run. -/
inductive Event (α : Type) where
  | start (call : Call α)
  | finish (call : Call α) (answer : Answer α)

/-- What surrounds a run: how long each call takes, what the clock shows at each moment, and which
calls it is cancelled at, by their number as they start and by how many have finished before. -/
structure Conditions where
  duration : Nat → Nat := fun _ => 0
  clock : Nat → Nat := fun _ => 0
  cancelledAtStart : Nat → Bool := fun _ => false
  cancelledAtFinish : Nat → Bool := fun _ => false

/-- What every step of a run knows. -/
structure Setting (α σ : Type) where
  canvas : Canvas α σ
  conditions : Conditions
  board : String
  /-- How many items fit in the window. -/
  width : Nat
  deadline : Option Nat

/-- What the steps of a run change. The latest event comes first. -/
structure State (α σ : Type) where
  canvas : σ
  cancelled : Bool
  now : Nat := 0
  started : Nat := 0
  finished : Nat := 0
  events : List (Event α) := []

/-- An item in the window. The answer of a call in flight is known when it is due. -/
inductive Slot (α : Type) where
  | ended (outcome : Outcome)
  | inFlight (call : Call α) (answer : Answer α) (due : Nat)

/-- The items of one kind. An item that refers to nothing waits without a request. The outcomes of
the items that left the window are kept with the latest first. -/
structure Phase (α : Type) where
  waiting : List (Option (Request α) × Nat)
  window : List (Slot α) := []
  done : List Outcome := []

variable {α σ : Type}

/-- Whether no further call may start. -/
def State.isStopped (setting : Setting α σ) (state : State α σ) : Bool :=
  state.cancelled || setting.deadline.any (· ≤ setting.conditions.clock state.now)

def State.start (setting : Setting α σ) (state : State α σ) (request : Request α) (place : Nat) :
    Slot α × State α σ :=
  let call : Call α := ⟨state.started, place, setting.board, request⟩
  let answered := setting.canvas.answer state.canvas call
  (.inFlight call answered.1 (state.now + setting.conditions.duration state.started),
    { state with
      canvas := answered.2
      cancelled := state.cancelled || setting.conditions.cancelledAtStart state.started
      started := state.started + 1
      events := .start call :: state.events })

def State.finish (setting : Setting α σ) (state : State α σ) (call : Call α) (answer : Answer α) :
    State α σ :=
  { state with
    cancelled := state.cancelled || setting.conditions.cancelledAtFinish state.finished
    finished := state.finished + 1
    events := .finish call answer :: state.events }

/-- An item that enters the window, with or without a call. -/
def State.enter (setting : Setting α σ) (state : State α σ) :
    Option (Request α) × Nat → Slot α × State α σ
  | (request?, place) =>
    if state.isStopped setting then
      (.ended .stopped, state)
    else
      match request? with
      | none => (.ended .unresolved, state)
      | some request => state.start setting request place

/-- The first call in the window that is due, and the window after it has ended. -/
def finishDue? (now : Nat) : List (Slot α) → Option (Call α × Answer α × List (Slot α))
  | [] => none
  | .inFlight call answer due :: slots =>
    if due ≤ now then
      some (call, answer, .ended (.ofAnswer answer) :: slots)
    else
      (finishDue? now slots).map fun (c, a, slots) => (c, a, .inFlight call answer due :: slots)
  | slot :: slots => (finishDue? now slots).map fun (c, a, slots) => (c, a, slot :: slots)

def nextDue? : List (Slot α) → Option Nat
  | [] => none
  | .inFlight _ _ due :: slots => some ((nextDue? slots).elim due (min due))
  | .ended _ :: slots => nextDue? slots

/-- Ends the first call in the window that is due at a moment, if there is one. -/
def endDue? (setting : Setting α σ) (phase : Phase α) (state : State α σ) (now : Nat) :
    Option (Phase α × State α σ) :=
  (finishDue? now phase.window).map fun (call, answer, window) =>
    ({ phase with window }, { state with now }.finish setting call answer)

/-- The first of four things that can be done: to collect an outcome at the front, to end a call
that is due now, to let an item enter, and to wait for the next call to be due. -/
def step? (setting : Setting α σ) (phase : Phase α) (state : State α σ) :
    Option (Phase α × State α σ) :=
  match phase.window with
  | .ended outcome :: window => some ({ phase with window, done := outcome :: phase.done }, state)
  | window =>
    match endDue? setting phase state state.now with
    | some next => some next
    | none =>
      let wait := (nextDue? window).bind (endDue? setting phase state)
      match phase.waiting with
      | [] => wait
      | item :: waiting =>
        if window.length < setting.width then
          let entered := state.enter setting item
          some ({ phase with waiting, window := window ++ [entered.1] }, entered.2)
        else
          wait

def Slot.weight : Slot α → Nat
  | .ended _ => 1
  | .inFlight .. => 2

def windowWeight : List (Slot α) → Nat
  | [] => 0
  | slot :: slots => slot.weight + windowWeight slots

/-- How many steps are left at most. -/
def Phase.weight (phase : Phase α) : Nat :=
  3 * phase.waiting.length + windowWeight phase.window

theorem windowWeight_append (window slots : List (Slot α)) :
    windowWeight (window ++ slots) = windowWeight window + windowWeight slots := by
  induction window with
  | nil => simp [windowWeight]
  | cons slot window ih => simp [windowWeight, ih, Nat.add_assoc]

theorem weight_finishDue? {now : Nat} {window rest : List (Slot α)} {call : Call α}
    {answer : Answer α} (h : finishDue? now window = some (call, answer, rest)) :
    windowWeight rest < windowWeight window := by
  induction window generalizing rest with
  | nil => simp [finishDue?] at h
  | cons slot slots ih =>
    cases slot with
    | ended outcome =>
      obtain ⟨⟨c, a, r⟩, hr, he⟩ := Option.map_eq_some_iff.1 h
      cases he
      simpa [windowWeight] using ih hr
    | inFlight c a due =>
      unfold finishDue? at h
      split at h
      · cases h
        simp [windowWeight, Slot.weight]
      · obtain ⟨⟨c, a, r⟩, hr, he⟩ := Option.map_eq_some_iff.1 h
        cases he
        simpa [windowWeight] using ih hr

theorem weight_endDue? {setting : Setting α σ} {phase next : Phase α} {state after : State α σ}
    {now : Nat} (h : endDue? setting phase state now = some (next, after)) :
    next.weight < phase.weight := by
  obtain ⟨⟨c, a, r⟩, hr, he⟩ := Option.map_eq_some_iff.1 h
  cases he
  simpa [Phase.weight] using weight_finishDue? hr

theorem weight_enter (setting : Setting α σ) (state : State α σ)
    (item : Option (Request α) × Nat) : (state.enter setting item).1.weight ≤ 2 := by
  unfold State.enter
  split
  split
  · simp [Slot.weight]
  · split
    · simp [Slot.weight]
    · simp [State.start, Slot.weight]

theorem weight_step? {setting : Setting α σ} {phase next : Phase α} {state after : State α σ}
    (h : step? setting phase state = some (next, after)) : next.weight < phase.weight := by
  have hwait {window : List (Slot α)}
      (h : (nextDue? window).bind (endDue? setting phase state) = some (next, after)) :
      next.weight < phase.weight := by
    obtain ⟨due, -, hd⟩ := Option.bind_eq_some_iff.1 h
    exact weight_endDue? hd
  unfold step? at h
  split at h
  · next outcome window hw =>
    cases h
    simp [Phase.weight, hw, windowWeight, Slot.weight]
  · split at h
    · next he =>
      cases h
      exact weight_endDue? he
    · split at h
      · exact hwait h
      · next item waiting hi =>
        split at h
        · simp only [Option.some.injEq, Prod.mk.injEq] at h
          obtain ⟨rfl, -⟩ := h
          have := weight_enter setting state item
          simp only [Phase.weight, hi, windowWeight_append, windowWeight, List.length_cons]
          omega
        · exact hwait h

/-- The outcomes of all items of a phase, in their order. -/
def Phase.run (setting : Setting α σ) (phase : Phase α) (state : State α σ) :
    List Outcome × State α σ :=
  match h : step? setting phase state with
  | some (next, state) =>
    have := weight_step? h
    next.run setting state
  | none => (phase.done.reverse, state)
termination_by phase.weight

end Chartboard.Run
