import Chartboard.Proofs.Run.Stopping
import Chartboard.Proofs.Run.Trace

namespace Chartboard.Run

variable {α σ : Type} {setting : Setting α σ} {phase next : Phase α} {state after : State α σ}

theorem Step.window_le (h : Step setting phase state next after)
    (hw : phase.window.length ≤ setting.width) : next.window.length ≤ setting.width := by
  cases h with
  | collect he =>
    rw [he] at hw
    exact Nat.le_of_succ_le hw
  | finish he =>
    rw [he] at hw
    simpa using hw
  | enter _ hr =>
    rw [List.length_append]
    exact hr

/-- An item that lies a whole window behind one that has entered has ended. -/
theorem exists_ended {i j : Nat} (hw : phase.window.length ≤ setting.width)
    (hi : i < phase.slots.length) (hj : j + setting.width ≤ i) :
    ∃ outcome, phase.slots[j]? = some (.ended outcome) := by
  simp only [Phase.slots, List.length_append, List.length_map, List.length_reverse] at hi
  have hlt : j < phase.done.reverse.length := by
    rw [List.length_reverse]
    omega
  refine ⟨phase.done.reverse[j], ?_⟩
  rw [Phase.slots, List.getElem?_append_left (by rwa [List.length_map]), List.getElem?_map,
    List.getElem?_eq_getElem hlt, Option.map_some]

/-- Of two calls of which one is for an item a whole window behind that of the other, the one ends
before the other starts. -/
theorem Logged.exists_finish {start : State α σ} {requests : List (Option (Request α))}
    {fates : List (Fate α)} {log : List (Event α)} {call other : Call α}
    (h : Logged setting start requests.zipIdx fates log phase state)
    (hw : phase.window.length ≤ setting.width) (hc : call ∈ starts log) (ho : other ∈ starts log)
    (hp : other.place + setting.width ≤ call.place) : ∃ answer, .finish other answer ∈ log := by
  obtain ⟨_, hc⟩ := h.mem_starts.1 hc
  obtain ⟨answer, ho⟩ := h.mem_starts.1 ho
  obtain ⟨slot, hs, -⟩ := forall₂_getElem? h.shown (h.getElem?_place hc)
  obtain ⟨outcome, hd⟩ := exists_ended hw (List.getElem?_eq_some_iff.1 hs).1 hp
  obtain ⟨slot, hs, hshow⟩ := forall₂_getElem? h.shown (h.getElem?_place ho)
  rw [hd] at hs
  cases hs
  cases hshow with
  | answered hm => exact ⟨answer, hm⟩

theorem length_inFlight_le (phase : Phase α) : phase.inFlight.length ≤ phase.window.length :=
  List.length_filterMap_le _ _

/-- A log in which at every moment all but a number of the calls that have started have ended. -/
def KeepsWindow (width : Nat) (log : List (Event α)) : Prop :=
  ∀ before, before <+: log → ∃ inFlight : List (Call α),
    (starts before).Perm (ends before ++ inFlight) ∧ inFlight.length ≤ width

theorem KeepsWindow.append {width : Nat} {log more : List (Event α)} (h : KeepsWindow width log)
    (he : (starts log).Perm (ends log)) (hm : KeepsWindow width more) :
    KeepsWindow width (log ++ more) := by
  rintro before ⟨after, ha⟩
  obtain ⟨rest, hl, -⟩ | ⟨first, rfl, hf⟩ := List.append_eq_append_iff.1 ha
  · exact h before ⟨rest, hl.symm⟩
  · obtain ⟨inFlight, hp, hw⟩ := hm first ⟨after, hf.symm⟩
    refine ⟨inFlight, ?_, hw⟩
    rw [starts_append, ends_append, List.append_assoc]
    exact he.append hp

namespace Job

variable {job : Job α σ} {kind : Kind}

theorem Passes.window_le (h : job.Passes kind phase state) :
    phase.window.length ≤ max 1 job.options.concurrency :=
  Reaches.invariant (P := fun p _ => p.window.length ≤ job.setting.width) h Step.window_le
    (Nat.zero_le _)

theorem log_keepsWindow (job : Job α σ) (kind : Kind) :
    KeepsWindow (max 1 job.options.concurrency) (job.log kind) := by
  intro before hb
  obtain ⟨phase, state, fates, hp, hl⟩ := exists_logged_of_prefix hb
  exact ⟨phase.inFlight, hl.balanced, (length_inFlight_le phase).trans hp.window_le⟩

theorem log_balanced (job : Job α σ) (kind : Kind) :
    (starts (job.log kind)).Perm (ends (job.log kind)) := by
  obtain ⟨fates, hl⟩ := job.exists_logged kind
  have hb := hl.balanced
  rwa [show Phase.inFlight ⟨[], [], (job.exit kind).1.reverse⟩ = ([] : List (Call α)) from rfl,
    List.append_nil] at hb

theorem trace_keepsWindow (job : Job α σ) :
    KeepsWindow (max 1 job.options.concurrency) job.trace := by
  rw [job.trace_eq .frame]
  exact (job.log_keepsWindow .frame).append (job.log_balanced .frame)
    ((job.log_keepsWindow .box).append (job.log_balanced .box) (job.log_keepsWindow .line))

/-- Before a call starts, all calls of the stages before its own have ended. -/
theorem exists_finish_earlier {before after : List (Event α)} {call other : Call α}
    (h : job.trace = before ++ .start call :: after) (ho : other ∈ starts job.trace)
    (hr : other.request.kind.rank < call.request.kind.rank) :
    ∃ answer, .finish other answer ∈ before := by
  obtain ⟨first, last, -, rfl⟩ := exists_log_of_event h
  have hm := mem_trace_iff.1 (mem_starts_iff.1 ho)
  obtain ⟨answer, hf⟩ := Job.exists_finish (mem_starts_iff.2 hm)
  exact ⟨answer, List.mem_append_left _ (mem_earlier_iff.2 ⟨hf, hr⟩)⟩

/-- Before a call starts, all calls of its own stage for items a whole window behind have ended. -/
theorem exists_finish_behind {before after : List (Event α)} {call other : Call α}
    (h : job.trace = before ++ .start call :: after) (ho : other ∈ starts job.trace)
    (hk : other.request.kind = call.request.kind)
    (hp : other.place + max 1 job.options.concurrency ≤ call.place) :
    ∃ answer, .finish other answer ∈ before := by
  obtain ⟨first, last, hl, rfl⟩ := exists_log_of_event h
  simp only [Event.call] at hl ⊢
  have hm : other ∈ starts (job.log call.request.kind) := by
    rw [mem_starts_iff, ← hk]
    exact mem_trace_iff.1 (mem_starts_iff.1 ho)
  -- The calls of a stage start in order, so the other one has started before.
  have hfirst : other ∈ starts first := by
    have hord := job.log_ordered call.request.kind
    rw [hl, starts_append] at hm hord
    have hlater := (List.pairwise_cons.1 (List.pairwise_append.1 hord).2.1).1
    rcases List.mem_append.1 hm with hm | hm
    · exact hm
    · rcases List.mem_cons.1 hm with rfl | hm
      · omega
      · have := hlater other hm
        omega
  have hprefix : first ++ [.start call] <+: job.log call.request.kind :=
    ⟨last, by rw [hl, List.append_assoc]; rfl⟩
  obtain ⟨phase, state, fates, hpass, hlog⟩ := exists_logged_of_prefix hprefix
  obtain ⟨answer, hf⟩ := hlog.exists_finish hpass.window_le
    (mem_starts_iff.2 (by simp)) (by rw [starts_append]; exact List.mem_append_left _ hfirst) hp
  exact ⟨answer, List.mem_append_right _ (by simpa using hf)⟩

end Job

/-- Calls keep to the order of the stages and of the items, and to the window: before one starts,
all calls of the stages before its own have ended, and so have those for the items a whole window
behind its own. -/
theorem calls_keep_to_stages_and_window (job : Job α σ) :
    (starts job.trace).Pairwise Call.Before ∧
    KeepsWindow (max 1 job.options.concurrency) job.trace ∧
    (∀ before call after, job.trace = before ++ .start call :: after →
      ∀ other ∈ starts job.trace, other.request.kind.rank < call.request.kind.rank ∨
        other.request.kind = call.request.kind ∧
          other.place + max 1 job.options.concurrency ≤ call.place →
        ∃ answer, .finish other answer ∈ before) ∧
    ∀ kind phase state, job.Passes kind phase state →
      ∀ i < phase.slots.length, ∀ j, j + max 1 job.options.concurrency ≤ i →
        ∃ outcome, phase.slots[j]? = some (.ended outcome) := by
  refine ⟨job.trace_ordered, job.trace_keepsWindow, ?_, ?_⟩
  · rintro before call after h other ho (hr | ⟨hk, hp⟩)
    · exact Job.exists_finish_earlier h ho hr
    · exact Job.exists_finish_behind h ho hk hp
  · intro kind phase state hp i hi j hj
    have hw : phase.window.length ≤ job.setting.width := hp.window_le
    exact exists_ended hw hi hj

/-- Three boxes of which the first takes the longest, and a line between two of them. -/
def crowded : Job Nat Unit :=
  { late with
    conditions := { duration := fun number => 3 - number }
    options := { concurrency := 2 } }

theorem crowded_keeps_to_window : ∃ first third answer before after,
    first.place = 0 ∧ third.place = 2 ∧ crowded.trace = before ++ .start third :: after ∧
      .finish first answer ∈ before := by
  have hp : (starts crowded.trace).map (fun call => (call.request.kind, call.place)) =
      [(.box, 0), (.box, 1), (.box, 2), (.line, 0)] := by decide +kernel
  have hcall : ∀ {kind place}, (kind, place) ∈ [(Kind.box, 0), (.box, 1), (.box, 2), (.line, 0)] →
      ∃ call ∈ starts crowded.trace, call.request.kind = kind ∧ call.place = place := by
    intro kind place hm
    rw [← hp, List.mem_map] at hm
    obtain ⟨call, hc, he⟩ := hm
    exact ⟨call, hc, congrArg Prod.fst he, congrArg Prod.snd he⟩
  obtain ⟨first, hf, hfk, hfp⟩ := hcall (show (Kind.box, 0) ∈ _ by decide)
  obtain ⟨third, ht, htk, htp⟩ := hcall (show (Kind.box, 2) ∈ _ by decide)
  obtain ⟨before, after, he⟩ := List.append_of_mem (mem_starts_iff.1 ht)
  obtain ⟨-, -, hended, -⟩ := calls_keep_to_stages_and_window crowded
  obtain ⟨answer, hm⟩ := hended before third after he first hf
    (.inr ⟨hfk.trans htk.symm, by rw [hfp, htp]; decide⟩)
  exact ⟨first, third, answer, before, after, hfp, htp, he, hm⟩

end Chartboard.Run
