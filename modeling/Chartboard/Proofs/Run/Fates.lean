import Chartboard.Proofs.Run.Stages
import Mathlib.Data.List.Forall2

namespace Chartboard.Run

variable {α σ : Type} {setting : Setting α σ}

/-- What becomes of an item when it enters the window. -/
inductive Fate (α : Type) where
  | stopped
  | unresolved
  | called (call : Call α) (answer : Answer α)

namespace Fate

def outcome : Fate α → Outcome
  | stopped => .stopped
  | unresolved => .unresolved
  | called _ answer => .ofAnswer answer

def call? : Fate α → Option (Call α)
  | called call _ => some call
  | _ => none

/-- The calls that fates come with. -/
def calls (fates : List (Fate α)) : List (Call α) :=
  fates.filterMap call?

theorem calls_append (fates more : List (Fate α)) :
    calls (fates ++ more) = calls fates ++ calls more :=
  List.filterMap_append

/-- Which fates an item can have when the next call has a number. An item without a request is never
called for, and a call asks for what the item requests. -/
inductive Of (setting : Setting α σ) (number : Nat) : Option (Request α) × Nat → Fate α → Prop where
  | stopped {item : Option (Request α) × Nat} : Of setting number item stopped
  | unresolved {place : Nat} : Of setting number (none, place) unresolved
  | called {request : Request α} {place : Nat} (canvas : σ) :
      Of setting number (some request, place)
        (called ⟨number, place, setting.board, request⟩
          (setting.canvas.answer canvas ⟨number, place, setting.board, request⟩).1)

end Fate

/-- The fates of items one after another, with numbers for their calls from a number on. -/
inductive Served (setting : Setting α σ) :
    Nat → List (Option (Request α) × Nat) → List (Fate α) → Prop where
  | nil {number : Nat} : Served setting number [] []
  | cons {number : Nat} {item : Option (Request α) × Nat} {fate : Fate α}
      {items : List (Option (Request α) × Nat)} {fates : List (Fate α)}
      (hf : fate.Of setting number item)
      (h : Served setting (number + (Fate.calls [fate]).length) items fates) :
      Served setting number (item :: items) (fate :: fates)

/-- How the fate of an item shows in the window: a call is in flight, or it was seen to end. -/
inductive Slot.Shows (events : List (Event α)) : Fate α → Slot α → Prop where
  | stopped : Shows events .stopped (.ended .stopped)
  | unresolved : Shows events .unresolved (.ended .unresolved)
  | inFlight {call : Call α} {answer : Answer α} {due : Nat} :
      Shows events (.called call answer) (.inFlight call answer due)
  | answered {call : Call α} {answer : Answer α} (h : .finish call answer ∈ events) :
      Shows events (.called call answer) (.ended (.ofAnswer answer))

/-- The fates of the items that have entered the window, as far as they show in a phase and a state.
-/
structure Tracks (setting : Setting α σ) (start : State α σ)
    (items : List (Option (Request α) × Nat)) (fates : List (Fate α)) (phase : Phase α)
    (state : State α σ) : Prop where
  served : ∃ entered, items = entered ++ phase.waiting ∧ Served setting start.started entered fates
  shown : List.Forall₂ (Slot.Shows state.events) fates phase.slots
  calls : state.calls = start.calls ++ Fate.calls fates
  started : state.started = start.started + (Fate.calls fates).length

theorem Served.append {number : Nat} {items others : List (Option (Request α) × Nat)}
    {fates more : List (Fate α)} (h : Served setting number items fates)
    (hm : Served setting (number + (Fate.calls fates).length) others more) :
    Served setting number (items ++ others) (fates ++ more) := by
  induction h with
  | nil => exact hm
  | @cons number _ head _ tail hh _ ih =>
    refine .cons hh (ih ?_)
    rw [← List.singleton_append, Fate.calls_append, List.length_append, ← Nat.add_assoc] at hm
    exact hm

theorem Served.length_eq {number : Nat} {items : List (Option (Request α) × Nat)}
    {fates : List (Fate α)} (h : Served setting number items fates) :
    fates.length = items.length := by
  induction h with
  | nil => rfl
  | cons _ _ ih => rw [List.length_cons, List.length_cons, ih]

/-- The fate of an item stands at its place. -/
theorem Served.getElem? {number i : Nat} {item : Option (Request α) × Nat}
    {items : List (Option (Request α) × Nat)} {fates : List (Fate α)}
    (h : Served setting number items fates) (hi : items[i]? = some item) :
    ∃ first fate, fates[i]? = some fate ∧ fate.Of setting first item := by
  induction h generalizing i with
  | nil => simp at hi
  | cons hf _ ih =>
    cases i with
    | zero =>
      cases hi
      exact ⟨_, _, rfl, hf⟩
    | succ i => exact ih hi

theorem Slot.Shows.mono {events later : List (Event α)} {fate : Fate α} {slot : Slot α}
    (hs : slot.Shows events fate) (he : events ⊆ later) : slot.Shows later fate := by
  cases hs with
  | stopped => exact .stopped
  | unresolved => exact .unresolved
  | inFlight => exact .inFlight
  | answered h => exact .answered (he h)

theorem forall₂_replace {R : β → γ → Prop} {l : List β} {before rest : List γ} {x y : γ}
    (h : List.Forall₂ R l (before ++ x :: rest)) (hxy : ∀ a, R a x → R a y) :
    List.Forall₂ R l (before ++ y :: rest) := by
  induction before generalizing l with
  | nil =>
    cases h with
    | cons ha hr => exact .cons (hxy _ ha) hr
  | cons z before ih =>
    cases h with
    | cons ha hr => exact .cons ha (ih hr)

/-- A call in flight shows the fate of its item. -/
theorem called_of_inFlight {events : List (Event α)} {fates : List (Fate α)}
    {slots : List (Slot α)} {call : Call α} {answer : Answer α} {due : Nat}
    (h : List.Forall₂ (Slot.Shows events) fates slots) (hm : .inFlight call answer due ∈ slots) :
    .called call answer ∈ fates := by
  induction h with
  | nil => cases hm
  | cons hs _ ih =>
    rcases List.mem_cons.1 hm with rfl | hm
    · cases hs
      exact List.mem_cons_self
    · exact List.mem_cons_of_mem _ (ih hm)

def Slot.call? : Slot α → Option (Call α)
  | .ended _ => none
  | .inFlight call _ _ => some call

def Phase.inFlight (phase : Phase α) : List (Call α) :=
  phase.window.filterMap Slot.call?

def Event.finished? : Event α → Option (Call α)
  | .start _ => none
  | .finish call _ => some call

/-- The calls that start in a log, which lists what is seen in the order of time. -/
def starts (log : List (Event α)) : List (Call α) :=
  log.filterMap Event.started?

def ends (log : List (Event α)) : List (Call α) :=
  log.filterMap Event.finished?

theorem starts_append (log seen : List (Event α)) :
    starts (log ++ seen) = starts log ++ starts seen :=
  List.filterMap_append

theorem ends_append (log seen : List (Event α)) :
    ends (log ++ seen) = ends log ++ ends seen :=
  List.filterMap_append

theorem starts_map (calls : List (Call α)) : starts (calls.map Event.start) = calls := by
  rw [starts, List.filterMap_map]
  exact List.filterMap_some

theorem ends_map (calls : List (Call α)) : ends (calls.map Event.start) = [] := by
  rw [ends, List.filterMap_map, List.filterMap_eq_nil_iff]
  exact fun _ _ => rfl

/-- What becomes of an item that enters the window in a state. -/
def State.fate (setting : Setting α σ) (state : State α σ) : Option (Request α) × Nat → Fate α
  | (request?, place) =>
    if state.isStopped setting then
      .stopped
    else
      match request? with
      | none => .unresolved
      | some request =>
        let call : Call α := ⟨state.started, place, setting.board, request⟩
        .called call (setting.canvas.answer state.canvas call).1

theorem fate_of_stopped {state : State α σ} (h : state.isStopped setting = true)
    (item : Option (Request α) × Nat) : state.fate setting item = .stopped := by
  simp [State.fate, h]

theorem fate_of_going {state : State α σ} (h : state.isStopped setting = false)
    (request? : Option (Request α)) (place : Nat) :
    state.fate setting (request?, place) = match request? with
      | none => .unresolved
      | some request => .called ⟨state.started, place, setting.board, request⟩
        (setting.canvas.answer state.canvas ⟨state.started, place, setting.board, request⟩).1 := by
  unfold State.fate
  rw [h]
  rfl

/-- An item that enters the window meets its fate there. -/
theorem enter_fate (setting : Setting α σ) (state : State α σ) (item : Option (Request α) × Nat) :
    (state.fate setting item).Of setting state.started item ∧
      (∀ events, (state.enter setting item).1.Shows events (state.fate setting item)) ∧
      (state.enter setting item).1.call? = (state.fate setting item).call? ∧
      (state.enter setting item).2.events =
        ((Fate.calls [state.fate setting item]).map Event.start).reverse ++ state.events ∧
      (state.enter setting item).2.started =
        state.started + (Fate.calls [state.fate setting item]).length := by
  cases hs : state.isStopped setting with
  | true =>
    rw [enter_of_stopped hs, fate_of_stopped hs]
    exact ⟨.stopped, fun _ => .stopped, rfl, rfl, rfl⟩
  | false =>
    obtain ⟨request?, place⟩ := item
    rw [enter_of_going hs, fate_of_going hs]
    cases request? with
    | none => exact ⟨.unresolved, fun _ => .unresolved, rfl, rfl, rfl⟩
    | some request => exact ⟨.called state.canvas, fun _ => .inFlight, rfl, rfl, rfl⟩

/-- What one step adds: fates of items that enter the window, and what is seen of them and of the
calls in flight. -/
structure Adds (setting : Setting α σ) (fates : List (Fate α)) (phase : Phase α) (state : State α σ)
    (next : Phase α) (after : State α σ) (more : List (Fate α)) (seen : List (Event α)) :
    Prop where
  served : ∃ entered, phase.waiting = entered ++ next.waiting ∧
    Served setting state.started entered more
  shown : ∀ log, List.Forall₂ (Slot.Shows log) fates phase.slots →
    List.Forall₂ (Slot.Shows (log ++ seen)) (fates ++ more) next.slots
  events : after.events = seen.reverse ++ state.events
  asked : starts seen = Fate.calls more
  started : after.started = state.started + (Fate.calls more).length
  finished : ∀ call answer, .finish call answer ∈ seen → .called call answer ∈ fates
  balanced : (phase.inFlight ++ starts seen).Perm (ends seen ++ next.inFlight)

/-- To collect an outcome adds nothing. -/
theorem Adds.of_collect {fates : List (Fate α)} {phase : Phase α} {state : State α σ}
    {outcome : Outcome} {window : List (Slot α)} (hw : phase.window = .ended outcome :: window) :
    Adds setting fates phase state { phase with window, done := outcome :: phase.done } state
      [] [] := by
  refine ⟨⟨[], rfl, .nil⟩, ?_, rfl, rfl, rfl, by simp, ?_⟩
  · intro log hl
    rw [List.append_nil, List.append_nil]
    simpa [Phase.slots, hw] using hl
  · rw [Phase.inFlight, hw]
    exact List.append_nil _ ▸ .refl _

/-- To end a call decides nothing, as its answer was known. -/
theorem Adds.of_finish {fates : List (Fate α)} {log : List (Event α)} {phase : Phase α}
    {state : State α σ} {before slots : List (Slot α)} {call : Call α} {answer : Answer α}
    {due now : Nat} (hw : phase.window = before ++ .inFlight call answer due :: slots)
    (hs : List.Forall₂ (Slot.Shows log) fates phase.slots) :
    Adds setting fates phase state
      { phase with window := before ++ .ended (.ofAnswer answer) :: slots }
      ({ state with now }.finish setting call answer) [] [.finish call answer] := by
  refine ⟨⟨[], rfl, .nil⟩, ?_, rfl, rfl, rfl, ?_, ?_⟩
  · intro log hl
    replace hl := hl.imp fun _ _ hf => hf.mono (List.subset_append_left log [.finish call answer])
    rw [Phase.slots, hw, ← List.append_assoc] at hl
    rw [List.append_nil, Phase.slots, ← List.append_assoc]
    apply forall₂_replace hl
    rintro _ ⟨⟩
    exact .answered (by simp)
  · intro c a hm
    cases List.mem_singleton.1 hm
    have hin : .inFlight call answer due ∈ phase.slots := by simp [Phase.slots, hw]
    exact called_of_inFlight hs hin
  · rw [Phase.inFlight, Phase.inFlight, hw, List.filterMap_append, List.filterMap_append]
    exact List.append_nil _ ▸ List.perm_middle

/-- An item that enters the window brings its fate with it, and the start of its call if it has one.
-/
theorem Adds.of_enter {phase : Phase α} {state : State α σ}
    {item : Option (Request α) × Nat} {waiting : List (Option (Request α) × Nat)}
    (hw : phase.waiting = item :: waiting) (fates : List (Fate α)) :
    Adds setting fates phase state
      { phase with waiting, window := phase.window ++ [(state.enter setting item).1] }
      (state.enter setting item).2 [state.fate setting item]
      ((Fate.calls [state.fate setting item]).map .start) := by
  obtain ⟨hf, hshow, hcall, hv, hn⟩ := enter_fate setting state item
  refine ⟨⟨[item], hw, .cons hf .nil⟩, ?_, hv, starts_map _, hn, by simp, ?_⟩
  · intro log hl
    rw [Phase.slots, ← List.append_assoc]
    exact List.rel_append (hl.imp fun _ _ hf => hf.mono (List.subset_append_left log _))
      (.cons (hshow _) .nil)
  · rw [starts_map, ends_map]
    simp [Phase.inFlight, Fate.calls, List.filterMap_cons, hcall]

/-- Only an item that enters the window brings a fate with it. -/
theorem Step.exists_adds {fates : List (Fate α)} {log : List (Event α)} {phase next : Phase α}
    {state after : State α σ} (h : Step setting phase state next after)
    (hs : List.Forall₂ (Slot.Shows log) fates phase.slots) :
    ∃ more seen, Adds setting fates phase state next after more seen := by
  cases h with
  | collect hw => exact ⟨_, _, .of_collect hw⟩
  | finish hw => exact ⟨_, _, .of_finish hw hs⟩
  | enter hw => exact ⟨_, _, .of_enter hw fates⟩

/-- What is seen of a stage in a log, from its start to a phase and a state. -/
structure Logged (setting : Setting α σ) (start : State α σ)
    (items : List (Option (Request α) × Nat)) (fates : List (Fate α)) (log : List (Event α))
    (phase : Phase α) (state : State α σ) : Prop where
  tracks : Tracks setting start items fates phase state
  shown : List.Forall₂ (Slot.Shows log) fates phase.slots
  events : state.events = log.reverse ++ start.events
  asked : starts log = Fate.calls fates
  finished : ∀ call answer, .finish call answer ∈ log → .called call answer ∈ fates
  balanced : (starts log).Perm (ends log ++ phase.inFlight)

namespace Logged

variable {start state after : State α σ} {items : List (Option (Request α) × Nat)}
  {fates : List (Fate α)} {log : List (Event α)} {phase next : Phase α}

theorem init (items : List (Option (Request α) × Nat)) (start : State α σ) :
    Logged setting start items [] [] { waiting := items } start where
  tracks := ⟨⟨[], rfl, .nil⟩, .nil, (List.append_nil _).symm, rfl⟩
  shown := .nil
  events := rfl
  asked := rfl
  finished := by simp
  balanced := .nil

theorem calls_of_events {seen : List (Event α)} (h : after.events = seen.reverse ++ state.events) :
    after.calls = state.calls ++ starts seen := by
  rw [State.calls, h, List.reverse_append, List.reverse_reverse, List.filterMap_append]
  rfl

/-- The fates that are decided stay as they are, and so does what was seen. -/
theorem append {more : List (Fate α)} {seen : List (Event α)}
    (hl : Logged setting start items fates log phase state)
    (ha : Adds setting fates phase state next after more seen) :
    Logged setting start items (fates ++ more) (log ++ seen) next after := by
  obtain ⟨⟨⟨entered, hi, hs⟩, -, hc, hn⟩, hshown, he, hst, hf, hb⟩ := hl
  obtain ⟨⟨others, hw, hm⟩, hshow, hv, hsm, hnm, hfm, hbm⟩ := ha
  have hevents : after.events = (log ++ seen).reverse ++ start.events := by
    rw [hv, he, List.reverse_append, List.append_assoc]
  refine ⟨⟨⟨entered ++ others, ?_, ?_⟩, ?_, ?_, ?_⟩, hshow log hshown, hevents, ?_, ?_, ?_⟩
  · rw [hi, hw, List.append_assoc]
  · exact hs.append (hn ▸ hm)
  · refine (hshow log hshown).imp fun _ _ hf => hf.mono ?_
    intro event hm
    rw [hevents]
    exact List.mem_append_left _ (List.mem_reverse.2 hm)
  · rw [calls_of_events hv, hc, hsm, List.append_assoc, Fate.calls_append]
  · rw [hnm, hn, Fate.calls_append, List.length_append, Nat.add_assoc]
  · rw [starts_append, hst, hsm, Fate.calls_append]
  · intro call answer hm
    apply List.mem_append_left
    rcases List.mem_append.1 hm with hm | hm
    · exact hf call answer hm
    · exact hfm call answer hm
  · rw [starts_append, ends_append, List.append_assoc]
    have hall := hb.append_right (starts seen)
    rw [List.append_assoc] at hall
    exact hall.trans (hbm.append_left (ends log))

theorem step (hl : Logged setting start items fates log phase state)
    (h : Step setting phase state next after) :
    ∃ more seen, Logged setting start items (fates ++ more) (log ++ seen) next after := by
  obtain ⟨more, seen, ha⟩ := h.exists_adds hl.shown
  exact ⟨more, seen, hl.append ha⟩

end Logged

namespace Tracks

variable {fates : List (Fate α)}

/-- Fates that show in ended items only are the outcomes of these, and their calls were seen to end.
-/
theorem outcomes_eq {events : List (Event α)} {outcomes : List Outcome}
    (h : List.Forall₂ (Slot.Shows events) fates (outcomes.map .ended)) :
    outcomes = fates.map Fate.outcome ∧
      ∀ call answer, .called call answer ∈ fates → .finish call answer ∈ events := by
  induction outcomes generalizing fates with
  | nil =>
    cases h
    simp
  | cons outcome outcomes ih =>
    cases h with
    | cons hf hr =>
      obtain ⟨ho, hc⟩ := ih hr
      rw [List.map_cons, ← ho]
      constructor
      · cases hf <;> rfl
      · intro call answer hm
        rcases List.mem_cons.1 hm with rfl | hm
        · cases hf with
          | answered h => exact h
        · exact hc call answer hm

end Tracks

namespace Job

variable {job : Job α σ} {kind : Kind} {phase : Phase α} {state : State α σ}

/-- All that a stage passes through is logged. -/
theorem Passes.exists_logged (h : job.Passes kind phase state) : ∃ fates log,
    Logged job.setting (job.entry kind).2 (job.entry kind).1.zipIdx fates log phase state := by
  refine h.invariant (P := fun p s => ∃ fates log,
    Logged job.setting (job.entry kind).2 (job.entry kind).1.zipIdx fates log p s) ?_
    ⟨[], [], .init _ _⟩
  rintro _ _ _ _ hs ⟨fates, log, hl⟩
  obtain ⟨more, seen, hl⟩ := hl.step hs
  exact ⟨fates ++ more, log ++ seen, hl⟩

/-- A stage gives every item a fate, and ends with the outcomes of all of them and with the ends of
their calls. -/
theorem exists_fates (job : Job α σ) (kind : Kind) : ∃ fates,
    Served job.setting (job.entry kind).2.started (job.entry kind).1.zipIdx fates ∧
      (job.exit kind).1 = fates.map Fate.outcome ∧
      (job.exit kind).2.calls = (job.entry kind).2.calls ++ Fate.calls fates ∧
      (job.exit kind).2.started = (job.entry kind).2.started + (Fate.calls fates).length ∧
      ∀ call answer, .called call answer ∈ fates →
        .finish call answer ∈ (job.exit kind).2.events := by
  have hpasses := (job.passes_entry kind).trans (job.passes_entry kind).reaches
  obtain ⟨fates, log, hl⟩ := hpasses.exists_logged
  obtain ⟨⟨entered, hi, hs⟩, hshown, hc, hn⟩ := hl.tracks
  rw [slots_last] at hshown
  rw [List.append_nil] at hi
  obtain ⟨ho, hends⟩ := Tracks.outcomes_eq hshown
  exact ⟨fates, hi ▸ hs, ho, hc, hn, hends⟩

end Job
end Chartboard.Run
