import Chartboard.Proofs.Run.Fates

namespace Chartboard
namespace Run

variable {α σ : Type} {setting : Setting α σ}

theorem forall₂_getElem? {R : β → γ → Prop} {l : List β} {m : List γ} {i : Nat} {x : β}
    (h : List.Forall₂ R l m) (hi : l[i]? = some x) : ∃ y, m[i]? = some y ∧ R x y := by
  induction h generalizing i with
  | nil => simp at hi
  | cons hr _ ih =>
    cases i with
    | zero =>
      cases hi
      exact ⟨_, rfl, hr⟩
    | succ i => exact ih hi

/-- What stands around a part of a list of which the other parts do not hold it. -/
theorem exists_middle {left middle right before after : List β} {x : β}
    (h : left ++ (middle ++ right) = before ++ x :: after) (hl : x ∉ left) (hr : x ∉ right) :
    ∃ first last, middle = first ++ x :: last ∧ before = left ++ first := by
  have hright : ∀ l, right ≠ l ++ x :: after := by
    rintro l rfl
    simp at hr
  have hmiddle : ∀ {first}, middle ++ right = first ++ x :: after →
      ∃ last, middle = first ++ x :: last := by
    intro first he
    obtain ⟨l, -, he⟩ | ⟨l, hm, he⟩ := List.append_eq_append_iff.1 he
    · exact absurd he (hright l)
    · cases l with
      | nil => exact absurd he.symm (hright [])
      | cons y l =>
        cases he
        exact ⟨l, hm⟩
  obtain ⟨first, hb, he⟩ | ⟨l, hb, he⟩ := List.append_eq_append_iff.1 h
  · obtain ⟨last, hm⟩ := hmiddle he
    exact ⟨first, last, hm, hb⟩
  · cases l with
    | nil =>
      have he : middle ++ right = [] ++ x :: after := he.symm
      obtain ⟨last, hm⟩ := hmiddle he
      exact ⟨[], last, hm, by simpa using hb.symm⟩
    | cons y l =>
      cases he
      simp [hb] at hl

/-- A call is made for the item at its place, and its answer is one of the canvas. -/
theorem Served.called {number i : Nat} {requests : List (Option (Request α))}
    {entered waiting : List (Option (Request α) × Nat)} {fates : List (Fate α)} {call : Call α}
    {answer : Answer α} (h : Served setting number entered fates)
    (he : requests.zipIdx = entered ++ waiting) (hi : fates[i]? = some (.called call answer)) :
    call.place = i ∧ requests[i]? = some (some call.request) ∧ call.board = setting.board ∧
      ∃ s, answer = (setting.canvas.answer s call).1 := by
  have hlt := (List.getElem?_eq_some_iff.1 hi).1
  rw [h.length_eq] at hlt
  obtain ⟨n, fate, hf, ho⟩ := h.getElem? (List.getElem?_eq_getElem hlt)
  have hz : requests.zipIdx[i]? = some entered[i] := by
    rw [he, List.getElem?_append_left hlt, List.getElem?_eq_getElem hlt]
  rw [List.getElem?_zipIdx] at hz
  obtain ⟨request?, hr, hp⟩ := Option.map_eq_some_iff.1 hz
  rw [hi] at hf
  cases hf
  rw [← hp] at ho
  cases ho with
  | called s => exact ⟨Nat.zero_add i, hr, rfl, s, rfl⟩

theorem Served.places {number : Nat} {items : List (Option (Request α) × Nat)}
    {fates : List (Fate α)} (h : Served setting number items fates) :
    ((Fate.calls fates).map Call.place).Sublist (items.map Prod.snd) := by
  induction h with
  | nil => exact .slnil
  | cons hf _ ih =>
    cases hf with
    | stopped => exact ih.cons _
    | unresolved => exact ih.cons _
    | called => exact ih.cons_cons _

namespace Logged

variable {start state : State α σ} {requests : List (Option (Request α))} {fates : List (Fate α)}
  {log : List (Event α)} {phase : Phase α} {call : Call α}

theorem mem_starts {items : List (Option (Request α) × Nat)}
    (h : Logged setting start items fates log phase state) :
    call ∈ starts log ↔ ∃ answer, .called call answer ∈ fates := by
  rw [h.asked, Fate.calls, List.mem_filterMap]
  constructor
  · rintro ⟨fate, hm, hc⟩
    cases fate with
    | stopped => cases hc
    | unresolved => cases hc
    | called c answer =>
      cases hc
      exact ⟨answer, hm⟩
  · rintro ⟨answer, hm⟩
    exact ⟨_, hm, rfl⟩

theorem ordered (h : Logged setting start requests.zipIdx fates log phase state) :
    (starts log).Pairwise fun first second => first.place < second.place := by
  obtain ⟨entered, he, hs⟩ := h.tracks.served
  have hsub : (entered.map Prod.snd).Sublist (requests.zipIdx.map Prod.snd) := by
    rw [he]
    exact (List.sublist_append_left entered phase.waiting).map _
  rw [List.zipIdx_map_snd] at hsub
  rw [h.asked, ← List.pairwise_map]
  exact (List.pairwise_lt_range' ..).sublist (hs.places.trans hsub)

theorem called {answer : Answer α} {i : Nat}
    (h : Logged setting start requests.zipIdx fates log phase state)
    (hi : fates[i]? = some (.called call answer)) : call.place = i ∧
      requests[i]? = some (some call.request) ∧ call.board = setting.board ∧
      ∃ s, answer = (setting.canvas.answer s call).1 := by
  obtain ⟨entered, he, hs⟩ := h.tracks.served
  exact hs.called he hi

/-- The fate of an item that is called for stands at the place of the call. -/
theorem getElem?_place {answer : Answer α}
    (h : Logged setting start requests.zipIdx fates log phase state)
    (hm : .called call answer ∈ fates) : fates[call.place]? = some (.called call answer) := by
  obtain ⟨i, hi⟩ := List.mem_iff_getElem?.1 hm
  rw [(h.called hi).1, hi]

theorem finish_mem_iff {items : List (Option (Request α) × Nat)} {outcomes : List Outcome}
    {answer : Answer α}
    (h : Logged setting start items fates log ⟨[], [], outcomes.reverse⟩ state) :
    .finish call answer ∈ log ↔ .called call answer ∈ fates := by
  have hshown := h.shown
  rw [slots_last] at hshown
  exact ⟨h.finished call answer, (Tracks.outcomes_eq hshown).2 call answer⟩

/-- The items of a stage that were created are those for which an id was returned. -/
theorem created_iff {outcomes : List Outcome} {place : Nat} {id : String}
    (h : Logged setting start requests.zipIdx fates log ⟨[], [], outcomes.reverse⟩ state) :
    outcomes[place]? = some (.created id) ↔
      ∃ call, .finish call (.ok id) ∈ log ∧ call.place = place := by
  have hshown := h.shown
  rw [slots_last] at hshown
  rw [(Tracks.outcomes_eq hshown).1, List.getElem?_map]
  constructor
  · intro ho
    obtain ⟨fate, hf, he⟩ := Option.map_eq_some_iff.1 ho
    cases fate with
    | stopped => cases he
    | unresolved => cases he
    | called call answer =>
      cases answer with
      | error why => cases he
      | ok other =>
        cases he
        exact ⟨call, h.finish_mem_iff.2 (List.mem_of_getElem? hf), (h.called hf).1⟩
  · rintro ⟨call, hm, rfl⟩
    rw [h.getElem?_place (h.finish_mem_iff.1 hm)]
    rfl

end Logged

def Event.call : Event α → Call α
  | .start call => call
  | .finish call _ => call

theorem mem_starts_iff {log : List (Event α)} {call : Call α} :
    call ∈ starts log ↔ .start call ∈ log := by
  rw [starts, List.mem_filterMap]
  constructor
  · rintro ⟨event, hm, he⟩
    cases event with
    | start c =>
      cases he
      exact hm
    | finish => cases he
  · exact fun hm => ⟨_, hm, rfl⟩

end Run

/-- The stages of a run by their number. -/
def Kind.rank : Kind → Nat
  | .frame => 0
  | .box => 1
  | .line => 2

/-- Whether the item of one call comes before that of another. -/
def Call.Before (first second : Call α) : Prop :=
  first.request.kind.rank < second.request.kind.rank ∨
    first.request.kind = second.request.kind ∧ first.place < second.place

namespace Run
namespace Job

variable {α σ : Type}

def log (job : Job α σ) (kind : Kind) : List (Event α) :=
  (job.exit kind).2.events.reverse.drop (job.entry kind).2.events.length

/-- What is seen of a run. -/
def trace (job : Job α σ) : List (Event α) :=
  job.ended.2.events.reverse.drop job.start.events.length

/-- What is seen of the stages before one. -/
def earlier (job : Job α σ) : Kind → List (Event α)
  | .frame => []
  | .box => job.log .frame
  | .line => job.log .frame ++ job.log .box

def later (job : Job α σ) : Kind → List (Event α)
  | .frame => job.log .box ++ job.log .line
  | .box => job.log .line
  | .line => []

variable {job : Job α σ} {kind : Kind}

theorem log_eq {fates : List (Fate α)} {items : List (Option (Request α) × Nat)}
    {log : List (Event α)} {phase : Phase α}
    (h : Logged job.setting (job.entry kind).2 items fates log phase (job.exit kind).2) :
    job.log kind = log := by
  rw [Job.log, h.events, List.reverse_append, List.reverse_reverse,
    List.drop_left' List.length_reverse]

theorem exists_logged (job : Job α σ) (kind : Kind) : ∃ fates,
    Logged job.setting (job.entry kind).2 (job.entry kind).1.zipIdx fates (job.log kind)
      ⟨[], [], (job.exit kind).1.reverse⟩ (job.exit kind).2 := by
  have hpasses := (job.passes_entry kind).trans (job.passes_entry kind).reaches
  obtain ⟨fates, log, hl⟩ := hpasses.exists_logged
  exact ⟨fates, log_eq hl ▸ hl⟩

theorem events_exit (job : Job α σ) (kind : Kind) :
    (job.exit kind).2.events = (job.log kind).reverse ++ (job.entry kind).2.events := by
  obtain ⟨fates, hl⟩ := job.exists_logged kind
  exact hl.events

/-- What was seen up to any moment of a stage is the log of a phase that it passes through. -/
theorem exists_logged_of_prefix {before : List (Event α)} (h : before <+: job.log kind) :
    ∃ phase state fates, job.Passes kind phase state ∧
      Logged job.setting (job.entry kind).2 (job.entry kind).1.zipIdx fates before phase state := by
  have hb : before.reverse ++ (job.entry kind).2.events <:+ (job.exit kind).2.events := by
    obtain ⟨after, ha⟩ := h
    rw [events_exit, ← ha, List.reverse_append, List.append_assoc]
    exact List.suffix_append _ _
  obtain ⟨⟨phase, state⟩, hr, he⟩ :=
    (job.passes_entry kind).reaches.exists_events (List.suffix_append _ _) hb
  have hp : job.Passes kind phase state := hr
  obtain ⟨fates, log, hl⟩ := hp.exists_logged
  have hlog : log = before := by
    rw [hl.events] at he
    exact List.reverse_injective (List.append_cancel_right he)
  exact ⟨phase, state, fates, hp, hlog ▸ hl⟩

theorem trace_eq (job : Job α σ) (kind : Kind) :
    job.trace = job.earlier kind ++ (job.log kind ++ job.later kind) := by
  have hall : job.trace = job.log .frame ++ (job.log .box ++ job.log .line) := by
    rw [trace, ended_state, events_exit, entry_line, events_exit, entry_box, events_exit,
      entry_frame]
    simp
  rw [hall]
  cases kind with
  | frame => rfl
  | box => rfl
  | line => simp [earlier, later]

theorem kind_of_mem_log {event : Event α} (h : event ∈ job.log kind) :
    event.call.request.kind = kind := by
  obtain ⟨fates, hl⟩ := job.exists_logged kind
  have hcalled : ∀ call answer, .called call answer ∈ fates → call.request.kind = kind := by
    intro call answer hm
    obtain ⟨i, hi⟩ := List.mem_iff_getElem?.1 hm
    exact kind_of_mem (List.mem_of_getElem? (hl.called hi).2.1)
  cases event with
  | start call =>
    obtain ⟨answer, hm⟩ := hl.mem_starts.1 (mem_starts_iff.2 h)
    exact hcalled call answer hm
  | finish call answer => exact hcalled call answer (hl.finished call answer h)

/-- What is seen of the stages before one is what their logs hold. -/
theorem mem_earlier_iff {event : Event α} : event ∈ job.earlier kind ↔
    event ∈ job.log event.call.request.kind ∧ event.call.request.kind.rank < kind.rank := by
  have hlog : ∀ {k}, event ∈ job.log k → k.rank < kind.rank →
      event ∈ job.log event.call.request.kind ∧ event.call.request.kind.rank < kind.rank := by
    intro k hm hlt
    rw [kind_of_mem_log hm]
    exact ⟨hm, hlt⟩
  constructor
  · intro h
    cases kind with
    | frame => cases h
    | box => exact hlog h (by decide)
    | line =>
      rcases List.mem_append.1 h with h | h
      · exact hlog h (by decide)
      · exact hlog h (by decide)
  · rintro ⟨hm, hlt⟩
    generalize event.call.request.kind = k at hm hlt
    cases kind <;> cases k <;> simp_all [earlier, Kind.rank]

theorem rank_lt_of_mem_later {event : Event α} (h : event ∈ job.later kind) :
    kind.rank < event.call.request.kind.rank := by
  cases kind with
  | frame =>
    rcases List.mem_append.1 h with h | h
    · rw [kind_of_mem_log h]
      decide
    · rw [kind_of_mem_log h]
      decide
  | box =>
    rw [kind_of_mem_log h]
    decide
  | line => cases h

theorem mem_trace_iff {event : Event α} :
    event ∈ job.trace ↔ event ∈ job.log event.call.request.kind := by
  rw [job.trace_eq event.call.request.kind, List.mem_append, List.mem_append]
  constructor
  · rintro (h | h | h)
    · exact (mem_earlier_iff.1 h).1
    · exact h
    · exact absurd (rank_lt_of_mem_later h) (Nat.lt_irrefl _)
  · exact fun h => .inr (.inl h)

/-- What is seen before an event is all of the stages before its own, and a part of that one. -/
theorem exists_log_of_event {before after : List (Event α)} {event : Event α}
    (h : job.trace = before ++ event :: after) : ∃ first last,
      job.log event.call.request.kind = first ++ event :: last ∧
      before = job.earlier event.call.request.kind ++ first := by
  rw [job.trace_eq event.call.request.kind] at h
  refine exists_middle h ?_ ?_
  · intro hm
    exact Nat.lt_irrefl _ (mem_earlier_iff.1 hm).2
  · intro hm
    exact Nat.lt_irrefl _ (rank_lt_of_mem_later hm)

/-- A call that has started in a stage ends before the stage does. -/
theorem exists_finish {call : Call α} (h : call ∈ starts (job.log kind)) :
    ∃ answer, .finish call answer ∈ job.log kind := by
  obtain ⟨fates, hl⟩ := job.exists_logged kind
  obtain ⟨answer, hm⟩ := hl.mem_starts.1 h
  exact ⟨answer, hl.finish_mem_iff.2 hm⟩

theorem log_ordered (job : Job α σ) (kind : Kind) :
    (starts (job.log kind)).Pairwise fun first second => first.place < second.place := by
  obtain ⟨fates, hl⟩ := job.exists_logged kind
  exact hl.ordered

/-- All calls of a run start in the order of the stages, and in each in the order of the items. -/
theorem trace_ordered (job : Job α σ) : (starts job.trace).Pairwise Call.Before := by
  have hkind : ∀ {kind call}, call ∈ starts (job.log kind) → call.request.kind = kind :=
    fun hm => kind_of_mem_log (mem_starts_iff.1 hm)
  have hlog : ∀ kind, (starts (job.log kind)).Pairwise Call.Before := by
    intro kind
    refine (job.log_ordered kind).imp_of_mem ?_
    intro first second hf hs hlt
    exact .inr ⟨(hkind hf).trans (hkind hs).symm, hlt⟩
  have hrank : ∀ {k l first second}, k.rank < l.rank → first ∈ starts (job.log k) →
      second ∈ starts (job.log l) → first.Before second := by
    intro k l first second hlt hf hs
    left
    rw [hkind hf, hkind hs]
    exact hlt
  rw [job.trace_eq .frame, starts_append, earlier, later, starts_append, starts_append]
  refine List.pairwise_append.2 ⟨.nil, List.pairwise_append.2 ⟨hlog .frame,
    List.pairwise_append.2 ⟨hlog .box, hlog .line, ?_⟩, ?_⟩, fun _ hm => absurd hm List.not_mem_nil⟩
  · intro first hf second hs
    exact hrank (by decide) hf hs
  · intro first hf second hs
    rcases List.mem_append.1 hs with hs | hs
    · exact hrank (by decide) hf hs
    · exact hrank (by decide) hf hs

end Job
end Run
end Chartboard
