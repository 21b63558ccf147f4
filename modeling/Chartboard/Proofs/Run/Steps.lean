import Chartboard.Run.Basic
import Mathlib.Logic.Relation

namespace Chartboard.Run

variable {α σ : Type} {setting : Setting α σ} {phase next : Phase α} {state after : State α σ}

/-- The items that have entered the window so far, in their order. -/
def Phase.slots (phase : Phase α) : List (Slot α) :=
  phase.done.reverse.map .ended ++ phase.window

theorem slots_last (outcomes : List Outcome) :
    Phase.slots (⟨[], [], outcomes.reverse⟩ : Phase α) = outcomes.map .ended := by
  simp [Phase.slots]

/-- A step collects the outcome at the front, ends a call that is due, or lets an item enter. -/
inductive Step (setting : Setting α σ) (phase : Phase α) (state : State α σ) :
    Phase α → State α σ → Prop where
  | collect {outcome : Outcome} {window : List (Slot α)}
      (hw : phase.window = .ended outcome :: window) :
      Step setting phase state { phase with window, done := outcome :: phase.done } state
  | finish {before slots : List (Slot α)} {call : Call α} {answer : Answer α} {due now : Nat}
      (hw : phase.window = before ++ .inFlight call answer due :: slots) (hd : due ≤ now)
      (hn : state.now ≤ now) :
      Step setting phase state
        { phase with window := before ++ .ended (.ofAnswer answer) :: slots }
        ({ state with now }.finish setting call answer)
  | enter {item : Option (Request α) × Nat} {waiting : List (Option (Request α) × Nat)}
      (hw : phase.waiting = item :: waiting) (hr : phase.window.length < setting.width) :
      Step setting phase state
        { phase with waiting, window := phase.window ++ [(state.enter setting item).1] }
        (state.enter setting item).2

theorem enter_of_stopped (h : state.isStopped setting = true) (item : Option (Request α) × Nat) :
    state.enter setting item = (.ended .stopped, state) := by
  simp [State.enter, h]

theorem enter_of_going (h : state.isStopped setting = false) (request? : Option (Request α))
    (place : Nat) : state.enter setting (request?, place) = match request? with
      | none => (.ended .unresolved, state)
      | some request => state.start setting request place := by
  unfold State.enter
  rw [h]
  rfl

/-- At most one thing is seen of a step. -/
theorem Step.events_eq (h : Step setting phase state next after) :
    after.events = state.events ∨ ∃ event, after.events = event :: state.events := by
  cases h with
  | collect => exact .inl rfl
  | finish => exact .inr ⟨_, rfl⟩
  | @enter item =>
    obtain ⟨request?, place⟩ := item
    cases hs : state.isStopped setting with
    | true =>
      rw [enter_of_stopped hs]
      exact .inl rfl
    | false =>
      rw [enter_of_going hs]
      cases request? with
      | none => exact .inl rfl
      | some request => exact .inr ⟨_, rfl⟩

theorem Step.events (h : Step setting phase state next after) :
    ∃ later, after.events = later ++ state.events := by
  rcases h.events_eq with he | ⟨event, he⟩
  · exact ⟨[], he⟩
  · exact ⟨[event], he⟩

/-- An item that has ended keeps its outcome. -/
theorem Step.ended_mem {outcome : Outcome} (h : Step setting phase state next after)
    (hm : .ended outcome ∈ phase.slots) : .ended outcome ∈ next.slots := by
  cases h with
  | collect hw => simpa [Phase.slots, hw] using hm
  | finish hw =>
    simp only [Phase.slots, hw, List.mem_append, List.mem_cons, reduceCtorEq, false_or] at hm ⊢
    exact hm.imp_right (Or.imp_right .inr)
  | enter =>
    rw [Phase.slots, ← List.append_assoc]
    exact List.mem_append_left _ hm

/-- A call in flight stays in flight until it ends with its answer. -/
theorem Step.inFlight_mem {call : Call α} {answer : Answer α} {due : Nat}
    (h : Step setting phase state next after) (hm : .inFlight call answer due ∈ phase.window) :
    .inFlight call answer due ∈ next.window ∨
      .ended (.ofAnswer answer) ∈ next.slots ∧
        after.events = .finish call answer :: state.events := by
  cases h with
  | collect hw => exact .inl (by simpa [hw] using hm)
  | @finish before slots c a d now hw =>
    rw [hw, List.mem_append, List.mem_cons] at hm
    rcases hm with hm | he | hm
    · exact .inl (List.mem_append_left _ hm)
    · cases he
      exact .inr ⟨by simp [Phase.slots], rfl⟩
    · exact .inl (List.mem_append_right _ (List.mem_cons_of_mem _ hm))
  | enter => exact .inl (List.mem_append_left _ hm)

theorem finishDue?_eq_some {now : Nat} {window rest : List (Slot α)} {call : Call α}
    {answer : Answer α} (h : finishDue? now window = some (call, answer, rest)) :
    ∃ before slots due, window = before ++ .inFlight call answer due :: slots ∧
      rest = before ++ .ended (.ofAnswer answer) :: slots ∧ due ≤ now := by
  induction window generalizing rest with
  | nil => simp [finishDue?] at h
  | cons slot slots ih =>
    cases slot with
    | ended outcome =>
      obtain ⟨⟨c, a, r⟩, hr, he⟩ := Option.map_eq_some_iff.1 h
      cases he
      obtain ⟨before, after, due, rfl, rfl, hd⟩ := ih hr
      exact ⟨.ended outcome :: before, after, due, rfl, rfl, hd⟩
    | inFlight c a due =>
      unfold finishDue? at h
      split at h
      · next hd =>
        cases h
        exact ⟨[], slots, due, rfl, rfl, hd⟩
      · obtain ⟨⟨c', a', r⟩, hr, he⟩ := Option.map_eq_some_iff.1 h
        cases he
        obtain ⟨before, after, due', rfl, rfl, hd⟩ := ih hr
        exact ⟨.inFlight c a due :: before, after, due', rfl, rfl, hd⟩

theorem finishDue?_eq_none {now : Nat} {window : List (Slot α)} (h : finishDue? now window = none)
    {call : Call α} {answer : Answer α} {due : Nat} (hm : .inFlight call answer due ∈ window) :
    now < due := by
  induction window with
  | nil => simp at hm
  | cons slot slots ih =>
    cases slot with
    | ended outcome => exact ih (Option.map_eq_none_iff.1 h) (by simpa using hm)
    | inFlight c a d =>
      unfold finishDue? at h
      split at h
      · simp at h
      · next hd =>
        rcases List.mem_cons.1 hm with he | hm
        · cases he
          omega
        · exact ih (Option.map_eq_none_iff.1 h) hm

theorem nextDue?_eq_some {window : List (Slot α)} {due : Nat} (h : nextDue? window = some due) :
    ∃ call answer, .inFlight call answer due ∈ window := by
  induction window generalizing due with
  | nil => simp [nextDue?] at h
  | cons slot slots ih =>
    cases slot with
    | ended outcome =>
      obtain ⟨call, answer, hm⟩ := ih h
      exact ⟨call, answer, List.mem_cons_of_mem _ hm⟩
    | inFlight c a d =>
      unfold nextDue? at h
      cases hn : nextDue? slots with
      | none =>
        obtain rfl : d = due := by simpa [hn] using h
        exact ⟨c, a, List.mem_cons_self⟩
      | some m =>
        obtain ⟨call, answer, hm⟩ := ih hn
        rw [hn, Option.some.injEq, Option.elim_some] at h
        rcases Nat.le_total d m with hle | hle
        · rw [Nat.min_eq_left hle] at h
          exact ⟨c, a, h ▸ List.mem_cons_self⟩
        · rw [Nat.min_eq_right hle] at h
          exact ⟨call, answer, h ▸ List.mem_cons_of_mem _ hm⟩

theorem step_of_endDue? {now : Nat} (hn : state.now ≤ now)
    (h : endDue? setting phase state now = some (next, after)) :
    Step setting phase state next after := by
  obtain ⟨⟨call, answer, window⟩, hd, he⟩ := Option.map_eq_some_iff.1 h
  cases he
  obtain ⟨before, slots, due, hw, rfl, hle⟩ := finishDue?_eq_some hd
  exact .finish hw hle hn

/-- Time only goes on to a moment that is still ahead. -/
theorem step_of_wait (hn : endDue? setting phase state state.now = none)
    (h : (nextDue? phase.window).bind (endDue? setting phase state) = some (next, after)) :
    Step setting phase state next after := by
  obtain ⟨due, hd, he⟩ := Option.bind_eq_some_iff.1 h
  obtain ⟨call, answer, hm⟩ := nextDue?_eq_some hd
  have hlt := finishDue?_eq_none (Option.map_eq_none_iff.1 hn) hm
  exact step_of_endDue? (Nat.le_of_lt hlt) he

theorem step_of_step? (h : step? setting phase state = some (next, after)) :
    Step setting phase state next after := by
  unfold step? at h
  split at h
  · next hw =>
    cases h
    exact .collect hw
  · split at h
    · next he =>
      cases h
      exact step_of_endDue? (Nat.le_refl _) he
    · next hn =>
      split at h
      · exact step_of_wait hn h
      · next hi =>
        split at h
        · next hr =>
          cases h
          exact .enter hi hr
        · exact step_of_wait hn h

/-- A window with a call in flight can always go on. -/
theorem wait_ne_none {call : Call α} {answer : Answer α} {due : Nat} {slots : List (Slot α)}
    (hw : phase.window = .inFlight call answer due :: slots) :
    (nextDue? phase.window).bind (endDue? setting phase state) ≠ none := by
  obtain ⟨now, hd⟩ : ∃ now, nextDue? phase.window = some now := ⟨_, by rw [hw, nextDue?]⟩
  obtain ⟨call, answer, hm⟩ := nextDue?_eq_some hd
  rw [hd, Option.bind_some]
  intro hn
  exact Nat.lt_irrefl now (finishDue?_eq_none (Option.map_eq_none_iff.1 hn) hm)

/-- Only a run that has nothing left to do ends. -/
theorem step?_eq_none (hpos : 0 < setting.width) (h : step? setting phase state = none) :
    phase.window = [] ∧ phase.waiting = [] := by
  cases hw : phase.window with
  | nil =>
    refine ⟨rfl, ?_⟩
    cases hi : phase.waiting with
    | nil => rfl
    | cons item waiting => simp [step?, hw, hi, endDue?, finishDue?, hpos] at h
  | cons slot slots =>
    cases slot with
    | ended outcome => simp [step?, hw] at h
    | inFlight call answer due =>
      have hwait : (nextDue? phase.window).bind (endDue? setting phase state) ≠ none :=
        wait_ne_none hw
      unfold step? at h
      split at h
      · simp at h
      · split at h
        · simp at h
        · split at h
          · exact absurd h hwait
          · split at h
            · simp at h
            · exact absurd h hwait

/-- What a run passes through from a phase and a state on. -/
def Reaches (setting : Setting α σ) : Phase α × State α σ → Phase α × State α σ → Prop :=
  Relation.ReflTransGen fun a b => step? setting a.1 a.2 = some b

/-- What every step preserves holds of everything that a run passes through. -/
theorem Reaches.invariant {P : Phase α → State α σ → Prop} {a b : Phase α × State α σ}
    (h : Reaches setting a b)
    (hs : ∀ {phase state next after}, Step setting phase state next after → P phase state →
      P next after) (ha : P a.1 a.2) : P b.1 b.2 := by
  induction h with
  | refl => exact ha
  | tail _ hb ih => exact hs (step_of_step? hb) ih

/-- Whatever was seen at an earlier moment, there is a state in which no more was seen. -/
theorem Reaches.exists_events {a b : Phase α × State α σ} (h : Reaches setting a b)
    {events : List (Event α)} (ha : a.2.events <:+ events) (hb : events <:+ b.2.events) :
    ∃ c, Reaches setting a c ∧ c.2.events = events := by
  -- A step shows one event at most, so the run passes over none of the moments in between.
  induction h with
  | refl => exact ⟨a, .refl, ha.eq_of_length_le hb.length_le⟩
  | @tail b c hab hbc ih =>
    rcases (step_of_step? hbc).events_eq with he | ⟨event, he⟩
    · exact ih (he ▸ hb)
    · rw [he, List.suffix_cons_iff] at hb
      rcases hb with hb | hb
      · exact ⟨c, .tail hab hbc, by rw [he, hb]⟩
      · exact ih hb

theorem run_of_step (h : step? setting phase state = some (next, after)) :
    phase.run setting state = next.run setting after := by
  rw [Phase.run]
  split
  · next hs =>
    rw [h] at hs
    cases hs
    rfl
  · next hs => simp [h] at hs

/-- A run goes on in one way only from everything it passes through. -/
theorem Reaches.run_eq {a b : Phase α × State α σ} (h : Reaches setting a b) :
    b.1.run setting b.2 = a.1.run setting a.2 := by
  induction h with
  | refl => rfl
  | tail _ hb ih => rw [← ih, run_of_step hb]

/-- A run passes on to where every item has left the window. -/
theorem exists_last (hpos : 0 < setting.width) (phase : Phase α) (state : State α σ) :
    ∃ outcomes final, phase.run setting state = (outcomes, final) ∧
      Reaches setting (phase, state) (⟨[], [], outcomes.reverse⟩, final) := by
  -- The induction takes the steps of the run; where it takes no more, nothing is in flight.
  fun_induction Phase.run setting phase state with
  | case1 phase state next after h _ ih =>
    obtain ⟨outcomes, final, he, hr⟩ := ih
    exact ⟨outcomes, final, he, .head h hr⟩
  | case2 phase state h =>
    obtain ⟨hw, hi⟩ := step?_eq_none hpos h
    refine ⟨phase.done.reverse, state, rfl, ?_⟩
    obtain ⟨waiting, window, done⟩ := phase
    cases hw
    cases hi
    rw [List.reverse_reverse]
    exact .refl

end Chartboard.Run
