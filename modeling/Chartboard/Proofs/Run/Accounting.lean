import Chartboard.Command.Report
import Chartboard.Proofs.Run.References
import Chartboard.Proofs.Run.Schedule
import Chartboard.Proofs.Run.Window

namespace Chartboard
namespace Run

variable {α σ : Type}

def ofKind (kind : Kind) (log : List (Event α)) : List (Event α) :=
  log.filter fun event => event.call.request.kind = kind

/-- The place of an item and its id, where its call is seen to succeed. -/
def Event.success? : Event α → Option (Nat × String)
  | .finish call (.ok id) => some (call.place, id)
  | _ => none

/-- The successful calls for items of a kind, in the order in which they end. -/
def successes (kind : Kind) (log : List (Event α)) : List (Nat × String) :=
  (ofKind kind log).filterMap Event.success?

def callsFor (kind : Kind) (place : Nat) (log : List (Event α)) : List (Call α) :=
  (starts (ofKind kind log)).filter (·.place = place)

theorem Event.success?_eq_some {event : Event α} {success : Nat × String} :
    event.success? = some success ↔
      ∃ call, event = .finish call (.ok success.2) ∧ call.place = success.1 := by
  constructor
  · intro h
    match event, h with
    | .finish call (.ok _), rfl => exact ⟨call, rfl, rfl⟩
  · rintro ⟨call, rfl, hp⟩
    rw [success?, hp]

def Fate.success? : Fate α → Option (Nat × String)
  | called call (.ok id) => some (call.place, id)
  | _ => none

theorem Fate.success?_eq_some {fate : Fate α} {success : Nat × String} :
    fate.success? = some success ↔
      ∃ call, fate = .called call (.ok success.2) ∧ call.place = success.1 := by
  constructor
  · intro h
    match fate, h with
    | .called call (.ok _), rfl => exact ⟨call, rfl, rfl⟩
  · rintro ⟨call, rfl, hp⟩
    rw [success?, hp]

/-- The places of successes are related as those of the calls that they come from. -/
theorem pairwise_success {β : Type} {call? : β → Option (Call α)}
    {success? : β → Option (Nat × String)} (R : Nat → Nat → Prop) {items : List β}
    (hs : ∀ {item success}, success? item = some success →
      ∃ call, call? item = some call ∧ call.place = success.1)
    (h : (items.filterMap call?).Pairwise fun first second => R first.place second.place) :
    (items.filterMap success?).Pairwise fun first second => R first.1 second.1 := by
  refine List.pairwise_filterMap.2 ((List.pairwise_filterMap.1 h).imp ?_)
  intro item other hr first hf second hn
  obtain ⟨call, hc, hp⟩ := hs hf
  obtain ⟨next, hnext, hq⟩ := hs hn
  rw [← hp, ← hq]
  exact hr call hc next hnext

/-- The ids of the items that are created are those that their fates come with. -/
theorem Fate.filterMap_id? (fates : List (Fate α)) :
    (fates.map Fate.outcome).filterMap Outcome.id? =
      (fates.filterMap Fate.success?).map Prod.snd := by
  rw [List.filterMap_map, List.map_filterMap]
  congr 1
  funext fate
  match fate with
  | .stopped | .unresolved | .called _ (.ok _) | .called _ (.error _) => rfl

namespace Job

variable {job : Job α σ} {kind : Kind} {place : Nat}

theorem ofKind_trace (job : Job α σ) (kind : Kind) : ofKind kind job.trace = job.log kind := by
  have hearlier : ofKind kind (job.earlier kind) = [] := by
    rw [ofKind, List.filter_eq_nil_iff]
    intro event hm
    have hr := (mem_earlier_iff.1 hm).2
    simp only [decide_eq_true_eq]
    intro hk
    rw [hk] at hr
    exact Nat.lt_irrefl _ hr
  have hlater : ofKind kind (job.later kind) = [] := by
    rw [ofKind, List.filter_eq_nil_iff]
    intro event hm
    have hr := rank_lt_of_mem_later hm
    simp only [decide_eq_true_eq]
    intro hk
    rw [hk] at hr
    exact Nat.lt_irrefl _ hr
  have hlog : ofKind kind (job.log kind) = job.log kind := by
    rw [ofKind, List.filter_eq_self]
    intro event hm
    exact decide_eq_true (kind_of_mem_log hm)
  rw [ofKind] at *
  rw [job.trace_eq kind, List.filter_append, List.filter_append, hearlier, hlog, hlater,
    List.append_nil, List.nil_append]

/-- The ids that are reported for a kind are those of its successful calls, by the places of the
items. -/
theorem exists_created (job : Job α σ) (kind : Kind) : ∃ created : List (Nat × String),
    created.Perm (successes kind job.trace) ∧
      created.Pairwise (fun first second => first.1 < second.1) ∧
      job.ended.1.report.ids kind = created.map Prod.snd := by
  obtain ⟨fates, hl⟩ := job.exists_logged kind
  have hsorted : (fates.filterMap Fate.success?).Pairwise fun a b => a.1 < b.1 := by
    have hordered : (Fate.calls fates).Pairwise fun first second => first.place < second.place :=
      hl.asked ▸ hl.ordered
    refine pairwise_success (· < ·) (fun hs => ?_) hordered
    obtain ⟨call, rfl, hp⟩ := Fate.success?_eq_some.1 hs
    exact ⟨call, rfl, hp⟩
  have hdistinct : ((job.log kind).filterMap Event.success?).Pairwise fun a b => a.1 ≠ b.1 := by
    have hends : (ends (job.log kind)).Pairwise fun first second => first.place ≠ second.place :=
      ((job.log_ordered kind).imp Nat.ne_of_lt).perm (job.log_balanced kind) Ne.symm
    refine pairwise_success (· ≠ ·) (fun hs => ?_) hends
    obtain ⟨call, rfl, hp⟩ := Event.success?_eq_some.1 hs
    exact ⟨call, rfl, hp⟩
  refine ⟨fates.filterMap Fate.success?, ?_, hsorted, ?_⟩
  · -- Neither list names a place twice, and both name what has ended with success.
    have hnodup : ∀ {l : List (Nat × String)}, (l.Pairwise fun a b => a.1 ≠ b.1) → l.Nodup :=
      fun h => h.imp fun hne he => hne (congrArg Prod.fst he)
    rw [successes, ofKind_trace]
    rw [List.perm_ext_iff_of_nodup (hnodup (hsorted.imp Nat.ne_of_lt)) (hnodup hdistinct)]
    intro success
    simp only [List.mem_filterMap, Fate.success?_eq_some, Event.success?_eq_some]
    constructor
    · rintro ⟨fate, hm, call, rfl, hp⟩
      exact ⟨_, hl.finish_mem_iff.2 hm, call, rfl, hp⟩
    · rintro ⟨event, hm, call, rfl, hp⟩
      exact ⟨_, hl.finish_mem_iff.1 hm, call, rfl, hp⟩
  · obtain ⟨ho, -⟩ := Tracks.outcomes_eq (slots_last (job.exit kind).1 ▸ hl.shown)
    rw [ids_report, job.outcomes_ended, ho, Fate.filterMap_id?]

/-- What became of the item at a place. -/
theorem exists_fate_at {request? : Option (Request α)}
    (hr : (job.entry kind).1[place]? = some request?) : ∃ fates number fate,
      Logged job.setting (job.entry kind).2 (job.entry kind).1.zipIdx fates (job.log kind)
        ⟨[], [], (job.exit kind).1.reverse⟩ (job.exit kind).2 ∧
      fates[place]? = some fate ∧ fate.Of job.setting number (request?, place) := by
  obtain ⟨fates, hl⟩ := job.exists_logged kind
  obtain ⟨entered, he, hs⟩ := hl.tracks.served
  rw [List.append_nil] at he
  have hi : (job.entry kind).1.zipIdx[place]? = some (request?, place) := by
    rw [List.getElem?_zipIdx, hr]
    simp
  obtain ⟨number, fate, hf, hof⟩ := hs.getElem? (he ▸ hi)
  exact ⟨fates, number, fate, hl, hf, hof⟩

/-- Of calls that stand in the order of their places one is for the place of each. -/
theorem filter_place {calls : List (Call α)} {call : Call α}
    (h : calls.Pairwise fun first second => first.place < second.place) (hm : call ∈ calls) :
    calls.filter (·.place = call.place) = [call] := by
  obtain ⟨before, after, rfl⟩ := List.append_of_mem hm
  obtain ⟨-, hafter, hbefore⟩ := List.pairwise_append.1 h
  have hb : before.filter (·.place = call.place) = [] := by
    rw [List.filter_eq_nil_iff]
    intro other ho
    have := hbefore other ho call List.mem_cons_self
    simp only [decide_eq_true_eq]
    omega
  have ha : after.filter (·.place = call.place) = [] := by
    rw [List.filter_eq_nil_iff]
    intro other ho
    have := (List.pairwise_cons.1 hafter).1 other ho
    simp only [decide_eq_true_eq]
    omega
  rw [List.filter_append, hb, List.filter_cons_of_pos (by simp), ha, List.nil_append]

/-- One call is made for an item, and the item is created if the call succeeds. -/
def CalledOnce (job : Job α σ) (kind : Kind) (place : Nat) : Prop :=
  ∃ call answer, callsFor kind place job.trace = [call] ∧ .finish call answer ∈ job.trace ∧
    ∀ id, answer = .ok id ↔ Returned job.trace kind place id

/-- What is asked for in a run that is not cancelled is called for once. -/
theorem calledOnce (hn : job.ended.1.report.cancelled = false) {request : Request α}
    (hr : (job.entry kind).1[place]? = some (some request)) : job.CalledOnce kind place := by
  obtain ⟨fates, number, fate, hl, hf, hof⟩ := exists_fate_at hr
  obtain ⟨ho, -⟩ := Tracks.outcomes_eq (slots_last (job.exit kind).1 ▸ hl.shown)
  have hm := List.mem_of_getElem? hf
  cases hof with
  | stopped =>
    -- The fate of being stopped would show among the outcomes.
    have hstop : Outcome.stopped ∈ job.ended.1.outcomes kind := by
      rw [job.outcomes_ended, ho]
      exact List.mem_map_of_mem hm
    exact absurd hstop (stopped_not_mem hn kind)
  | called s =>
    obtain rfl : request.kind = kind := kind_of_mem (List.mem_of_getElem? hr)
    refine ⟨_, _, ?_, mem_trace_iff.2 (hl.finish_mem_iff.2 hm), ?_⟩
    · rw [callsFor, ofKind_trace]
      exact filter_place (job.log_ordered request.kind) (hl.mem_starts.2 ⟨_, hm⟩)
    · intro id
      rw [(job.hasSeen_trace request.kind).returned_iff, getElem?_ids, ho, List.getElem?_map, hf,
        Option.map_some, Option.some.injEq, Fate.outcome, ofAnswer_eq_created]

/-- What is not asked for is not called for. -/
theorem not_called (hr : (job.entry kind).1[place]? = some none) :
    callsFor kind place job.trace = [] := by
  obtain ⟨fates, number, fate, hl, hf, hof⟩ := exists_fate_at hr
  rw [callsFor, ofKind_trace, List.filter_eq_nil_iff]
  intro call hc hp
  obtain ⟨answer, hm⟩ := hl.mem_starts.1 hc
  have hi := hl.getElem?_place hm
  rw [of_decide_eq_true hp, hf] at hi
  cases hi
  cases hof

theorem created_iff_returned : job.ended.1.Created kind place ↔
    ∃ id, Returned job.trace kind place id := by
  rw [Record.Created, job.outcomes_ended]
  simp only [(job.hasSeen_trace kind).returned_iff, getElem?_ids]

/-- A line of a run that is not cancelled is called for once if both its boxes were created, and
else not at all. -/
theorem line_called (hn : job.ended.1.report.cancelled = false)
    (h : place < job.plan.lines.length) :
    ((∃ id, Returned job.trace .box job.plan.lines[place].source id) ∧
        (∃ id, Returned job.trace .box job.plan.lines[place].target id) →
      job.CalledOnce .line place) ∧
    (¬ ((∃ id, Returned job.trace .box job.plan.lines[place].source id) ∧
        ∃ id, Returned job.trace .box job.plan.lines[place].target id) →
      callsFor .line place job.trace = []) := by
  rw [← created_iff_returned, ← created_iff_returned, ← line_asked_iff h]
  constructor
  · rintro ⟨request, hr⟩
    exact calledOnce hn hr
  · intro hr
    have hlt : place < (job.entry .line).1.length := by
      rw [entry_line, lineRequests, List.length_map]
      exact h
    cases he : (job.entry .line).1[place] with
    | none => exact not_called (by rw [List.getElem?_eq_getElem hlt, he])
    | some request => exact absurd ⟨request, by rw [List.getElem?_eq_getElem hlt, he]⟩ hr

end Job

/-- The names under which the ids of a kind and their number are printed. -/
def fieldNames : Kind → String × String
  | .frame => ("frame_ids", "frames_created")
  | .box => ("node_ids", "nodes_created")
  | .line => ("connector_ids", "connectors_created")

/-- A run reports the ids of its successful calls, each once and by the places of the items, and
prints how many there are. If it is not cancelled, every frame and every box was called for once,
and a line once if both its boxes were created and else not at all. -/
theorem reports_account_for_calls (job : Job α σ) :
    (∀ kind, ∃ created : List (Nat × String), created.Perm (successes kind job.trace) ∧
      created.Pairwise (fun first second => first.1 < second.1) ∧
      job.ended.1.report.ids kind = created.map Prod.snd) ∧
    (∀ (report : Report Float) kind, ∃ fields, report.json = .record fields ∧
      fields.lookup (fieldNames kind).1 = some (.list ((report.ids kind).map .text)) ∧
      fields.lookup (fieldNames kind).2 = some (.nat (report.ids kind).length)) ∧
    (job.ended.1.report.cancelled = false →
      (∀ i < job.plan.frames.length, job.CalledOnce .frame i) ∧
      (∀ j < job.plan.boxes.length, job.CalledOnce .box j) ∧
      ∀ k, (hk : k < job.plan.lines.length) →
        ((∃ id, Returned job.trace .box job.plan.lines[k].source id) ∧
            (∃ id, Returned job.trace .box job.plan.lines[k].target id) →
          job.CalledOnce .line k) ∧
        (¬ ((∃ id, Returned job.trace .box job.plan.lines[k].source id) ∧
            ∃ id, Returned job.trace .box job.plan.lines[k].target id) →
          callsFor .line k job.trace = [])) := by
  refine ⟨job.exists_created, ?_, ?_⟩
  · intro report kind
    cases kind <;> exact ⟨_, rfl, rfl, rfl⟩
  · intro hn
    refine ⟨?_, ?_, fun k hk => Job.line_called hn hk⟩
    · intro i hi
      obtain ⟨request, hr⟩ := job.frame_asked_iff.2 hi
      exact Job.calledOnce hn hr
    · intro j hj
      obtain ⟨request, hr⟩ := job.box_asked_iff.2 hj
      exact Job.calledOnce hn hr

/-- The scattered items again, but a box fails, and a second line leads to it. -/
def uneven : Job Nat Unit :=
  { scattered with
    canvas := ⟨fun s call => (match call.request.kind, call.place with
      | .box, 2 => .error (.unavailable "busy")
      | _, _ => (scattered.canvas.answer s call).1, s)⟩
    plan := { scattered.plan with
      lines := [1, 2].map fun source => ⟨source, 3, none, .solid, .straight, .none, .arrow⟩ } }

theorem uneven_accounted :
    (∃ created : List (Nat × String), created.Perm (successes .box uneven.trace) ∧
      created.Pairwise (fun first second => first.1 < second.1) ∧
      uneven.ended.1.report.ids .box = created.map Prod.snd) ∧
    uneven.CalledOnce .frame 0 ∧ uneven.CalledOnce .box 2 ∧ uneven.CalledOnce .line 0 ∧
    callsFor .line 1 uneven.trace = [] := by
  have hq : uneven.Quiet := ⟨rfl, fun _ => rfl, fun _ => rfl, rfl⟩
  have hleft : uneven.ended.1.Created .box 1 := ⟨"left", by decide +kernel⟩
  have hright : uneven.ended.1.Created .box 3 := ⟨"right", by decide +kernel⟩
  have hfailed : ¬ uneven.ended.1.Created .box 2 := by
    have ho : (uneven.ended.1.outcomes .box)[2]? = some .failed := by decide +kernel
    rintro ⟨id, h⟩
    rw [ho] at h
    cases h
  rw [Job.created_iff_returned] at hleft hright hfailed
  obtain ⟨hids, -, hcalled⟩ := reports_account_for_calls uneven
  obtain ⟨hframes, hboxes, hlines⟩ := hcalled hq.cancelled
  exact ⟨hids .box, hframes 0 (by decide), hboxes 2 (by decide),
    (hlines 0 (by decide)).1 ⟨hleft, hright⟩, (hlines 1 (by decide)).2 fun h => hfailed h.1⟩

end Run
end Chartboard
