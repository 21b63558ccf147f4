import Chartboard.Proofs.Run.Stopping
import Chartboard.Proofs.Run.Trace

namespace Chartboard.Run

variable {α σ : Type}

/-- An id was returned for the item of a kind at a place. -/
def Returned (seen : List (Event α)) (kind : Kind) (place : Nat) (id : String) : Prop :=
  ∃ call, .finish call (.ok id) ∈ seen ∧ call.request.kind = kind ∧ call.place = place

namespace Job

/-- The parent of a box that names a frame is the id that was returned for it, if there is one. A
box that names none has the parent of the run. -/
def Parents (job : Job α σ) (seen : List (Event α)) : Option Nat → Option String → Prop
  | none, parent => parent = job.options.parent
  | some frame, parent => ∀ id, parent = some id ↔ Returned seen .frame frame id

/-- A request for the item of the plan at a place, which refers to others by their ids. A line is
asked for only if ids were returned for the boxes at both of its ends. -/
def Asks (job : Job α σ) (seen : List (Event α)) (place : Nat) : Request α → Prop
  | .frame item => job.plan.frames[place]? = some item
  | .box item => ∃ planned parent, job.plan.boxes[place]? = some planned ∧
      item = planned.inside parent ∧ job.Parents seen planned.parent parent
  | .line item => ∃ planned source target, job.plan.lines[place]? = some planned ∧
      item = planned.between source target ∧
      (∀ id, Returned seen .box planned.source id ↔ id = source) ∧
      (∀ id, Returned seen .box planned.target id ↔ id = target)

/-- Whether everything that a run shows of the items of a kind was seen. -/
def HasSeen (job : Job α σ) (seen : List (Event α)) (kind : Kind) : Prop :=
  ∀ event, event.call.request.kind = kind → (event ∈ seen ↔ event ∈ job.trace)

variable {job : Job α σ} {seen before after : List (Event α)} {event : Event α} {kind : Kind}

theorem hasSeen_trace (job : Job α σ) (kind : Kind) : job.HasSeen job.trace kind :=
  fun _ _ => .rfl

/-- Before an event of one stage everything of the stages before it was seen. -/
theorem hasSeen_before (h : job.trace = before ++ event :: after)
    (hr : kind.rank < event.call.request.kind.rank) : job.HasSeen before kind := by
  rintro other rfl
  obtain ⟨first, last, hl, rfl⟩ := exists_log_of_event h
  rw [mem_trace_iff, List.mem_append, mem_earlier_iff]
  constructor
  · rintro (⟨hm, -⟩ | hm)
    · exact hm
    · -- What was seen of the stage of the event itself is of its kind.
      have hk : other.call.request.kind = event.call.request.kind :=
        kind_of_mem_log (hl ▸ List.mem_append_left _ hm)
      exact absurd hr (by rw [hk]; exact Nat.lt_irrefl _)
  · exact fun hm => .inl ⟨hm, hr⟩

/-- The ids that were returned for the items of a kind are those that its stage has left. -/
theorem HasSeen.returned_iff (h : job.HasSeen seen kind) {place : Nat} {id : String} :
    Returned seen kind place id ↔ (ids (job.exit kind).1)[place]?.join = some id := by
  obtain ⟨fates, hl⟩ := job.exists_logged kind
  rw [getElem?_ids, hl.created_iff]
  constructor
  · rintro ⟨call, hm, rfl, hp⟩
    exact ⟨call, mem_trace_iff.1 ((h (.finish call (.ok id)) rfl).1 hm), hp⟩
  · rintro ⟨call, hm, hp⟩
    have hk : call.request.kind = kind := kind_of_mem_log hm
    subst hk
    exact ⟨call, (h _ rfl).2 (mem_trace_iff.2 hm), rfl, hp⟩

/-- A call is made on the board of its run, for what is requested at its place. -/
theorem requested {call : Call α} (h : .start call ∈ job.trace) :
    (job.entry call.request.kind).1[call.place]? = some (some call.request) ∧
      call.board = job.board := by
  obtain ⟨fates, hl⟩ := job.exists_logged call.request.kind
  obtain ⟨answer, hm⟩ := hl.mem_starts.1 (mem_starts_iff.2 (mem_trace_iff.1 h))
  obtain ⟨-, hr, hb, -⟩ := hl.called (hl.getElem?_place hm)
  exact ⟨hr, hb⟩

theorem asks_of_requested {request : Request α} {place : Nat}
    (hr : (job.entry request.kind).1[place]? = some (some request))
    (hs : ∀ kind, kind.rank < request.kind.rank → job.HasSeen seen kind) :
    job.Asks seen place request := by
  cases request with
  | frame item =>
    simpa [Asks, Request.kind, entry_frame, frameRequests] using hr
  | box item =>
    have hframe := hs .frame Nat.one_pos
    simp only [Request.kind, entry_box, boxRequests, List.getElem?_map, Option.map_eq_some_iff,
      Option.some.injEq, Request.box.injEq] at hr
    obtain ⟨planned, hp, rfl⟩ := hr
    refine ⟨planned, _, hp, rfl, ?_⟩
    cases planned.parent with
    | none => exact rfl
    | some frame => exact fun id => hframe.returned_iff.symm
  | line item =>
    have hbox := hs .box Nat.one_lt_two
    simp only [Request.kind, entry_line, lineRequests, List.getElem?_map, Option.map_eq_some_iff,
      Option.bind_eq_bind, Option.bind_eq_some_iff, Option.pure_def, Option.some.injEq,
      Request.line.injEq] at hr
    obtain ⟨planned, hp, source, hsource, target, htarget, rfl⟩ := hr
    refine ⟨planned, source, target, hp, rfl, ?_, ?_⟩
    · intro id
      rw [hbox.returned_iff, hsource, Option.some.injEq, eq_comm]
    · intro id
      rw [hbox.returned_iff, htarget, Option.some.injEq, eq_comm]

/-- The end of a call follows its start, with an answer of the canvas. -/
theorem started_and_answered {call : Call α} {answer : Answer α}
    (h : job.trace = before ++ .finish call answer :: after) :
    .start call ∈ before ∧ ∃ s, answer = (job.canvas.answer s call).1 := by
  obtain ⟨first, last, hl, rfl⟩ := exists_log_of_event h
  have hprefix : first ++ [.finish call answer] <+: job.log call.request.kind :=
    ⟨last, by rw [List.append_assoc]; exact hl.symm⟩
  obtain ⟨phase, state, fates, -, hlog⟩ := exists_logged_of_prefix hprefix
  have hm : .called call answer ∈ fates := hlog.finished call answer (by simp)
  have hstart : call ∈ starts (first ++ [.finish call answer]) := hlog.mem_starts.2 ⟨answer, hm⟩
  obtain ⟨-, -, -, ha⟩ := hlog.called (hlog.getElem?_place hm)
  refine ⟨List.mem_append_right _ ?_, ha⟩
  simpa [mem_starts_iff] using hstart

/-- No item is called for twice. -/
theorem nodup_starts (job : Job α σ) :
    ((starts job.trace).map fun call => (call.request.kind, call.place)).Nodup := by
  refine List.pairwise_map.2 (job.trace_ordered.imp ?_)
  intro first second hb he
  rw [Prod.mk.injEq] at he
  rcases hb with hr | ⟨-, hp⟩
  · exact Nat.ne_of_lt hr (congrArg Kind.rank he.1)
  · exact Nat.ne_of_lt hp he.2

end Job

/-- Every call is for one item of the plan, and no other call is for the same item. It refers to
others by the ids that were returned for them before it, and none is returned for them after it. -/
theorem calls_refer_to_returned_ids (job : Job α σ) :
    ((starts job.trace).map fun call => (call.request.kind, call.place)).Nodup ∧
    (∀ before call after, job.trace = before ++ .start call :: after → call.board = job.board ∧
      job.Asks before call.place call.request ∧ job.Asks job.trace call.place call.request) ∧
    ∀ before call answer after, job.trace = before ++ .finish call answer :: after →
      .start call ∈ before ∧ ∃ s, answer = (job.canvas.answer s call).1 := by
  refine ⟨job.nodup_starts, ?_, fun _ _ _ _ => Job.started_and_answered⟩
  intro before call after h
  have hm : .start call ∈ job.trace := by rw [h]; exact List.mem_append_right _ List.mem_cons_self
  obtain ⟨hr, hb⟩ := Job.requested hm
  exact ⟨hb, Job.asks_of_requested hr fun _ => Job.hasSeen_before h,
    Job.asks_of_requested hr fun kind _ => job.hasSeen_trace kind⟩

/-- Two frames of which the first fails, and boxes in both of them, in a third one that does not
exist, and in none, with a line between two of them. -/
def scattered : Job Nat Unit where
  canvas := ⟨fun s call => (match call.request.kind, call.place with
    | .frame, 0 => .error (.unavailable "busy")
    | .frame, _ => .ok "frame"
    | .box, 1 => .ok "left"
    | .box, _ => .ok "right"
    | .line, _ => .ok "line", s)⟩
  conditions := { duration := fun number => 5 - number }
  options := { parent := some "outer", concurrency := 2 }
  board := "board"
  plan := {
    frames := List.replicate 2 ⟨none, 0, 0, 1, 1, none⟩
    boxes := [some 0, some 1, some 2, none].map fun parent =>
      ⟨.rectangle, false, "box", 0, 0, 1, 1, none, none, parent⟩
    lines := [⟨1, 3, none, .solid, .straight, .none, .arrow⟩]
    width := 1
    height := 1 }
  start := { canvas := (), cancelled := false }

namespace scattered

def framed : Call Nat :=
  ⟨3, 1, "board", .box ⟨.rectangle, false, "box", 0, 0, 1, 1, none, none, some "frame"⟩⟩

def joining : Call Nat :=
  ⟨6, 0, "board", .line ⟨"left", "right", none, .solid, .straight, .none, .arrow⟩⟩

end scattered

theorem scattered_refers_to_returned_ids :
    (∃ before after, scattered.trace = before ++ .start scattered.framed :: after ∧
      Returned before .frame 1 "frame") ∧
    ∃ before after, scattered.trace = before ++ .start scattered.joining :: after ∧
      Returned before .box 1 "left" ∧ Returned before .box 3 "right" := by
  obtain ⟨-, hasks, -⟩ := calls_refer_to_returned_ids scattered
  have hcall : ∀ call ∈ starts scattered.trace, ∃ before after,
      scattered.trace = before ++ .start call :: after ∧
        scattered.Asks before call.place call.request := by
    intro call hm
    obtain ⟨before, after, he⟩ := List.append_of_mem (mem_starts_iff.1 hm)
    exact ⟨before, after, he, (hasks before call after he).2.1⟩
  constructor
  · obtain ⟨before, after, he, planned, parent, hp, hi, ha⟩ :=
      hcall scattered.framed (by decide +kernel)
    cases hp
    cases hi
    exact ⟨before, after, he, (ha "frame").1 rfl⟩
  · obtain ⟨before, after, he, planned, source, target, hp, hi, hs, ht⟩ :=
      hcall scattered.joining (by decide +kernel)
    cases hp
    cases hi
    exact ⟨before, after, he, (hs "left").2 rfl, (ht "right").2 rfl⟩

end Chartboard.Run
