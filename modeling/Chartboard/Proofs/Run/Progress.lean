import Chartboard.Proofs.Canvas.Calls
import Chartboard.Proofs.Run.Fates

namespace Chartboard.Run

variable {α σ : Type}

/-- The requests of the stage that follows on stages with these outcomes. -/
def Job.requests (job : Job α σ) : List (List Outcome) → List (Option (Request α))
  | [] => frameRequests job.plan
  | [frames] => boxRequests job.options.parent (ids frames) job.plan
  | [_, boxes] => lineRequests (ids boxes) job.plan
  | _ => []

/-- How far a run has come: the outcomes of the stages that it has ended, and where it is in the
present one. -/
structure Progress (α σ : Type) where
  done : List (List Outcome)
  phase : Phase α
  state : State α σ

namespace Progress

/-- A run that has ended its frames, its boxes and its lines. -/
def Over (progress : Progress α σ) : Prop :=
  progress.done.length = 3

/-- The same progress on another canvas. -/
def on (progress : Progress α σ) (canvas : σ) : Progress α σ :=
  { progress with state := { progress.state with canvas } }

/-- The beginning of the next stage, after one with some outcomes. -/
def turned (job : Job α σ) (progress : Progress α σ) (outcomes : List Outcome) : Progress α σ where
  done := progress.done ++ [outcomes]
  phase := { waiting := (job.requests (progress.done ++ [outcomes])).zipIdx }
  state := progress.state

def record (plan : Plan α) (progress : Progress α σ) : Record α :=
  ⟨progress.done[0]?.getD [], progress.done[1]?.getD [], progress.done[2]?.getD [], plan.width,
    plan.height⟩

end Progress

def Job.begun (job : Job α σ) : Progress α σ :=
  ⟨[], { waiting := (job.requests []).zipIdx }, job.start⟩

/-- One step in a stage, or the turn from a stage in which nothing is left to the next. -/
inductive Move (job : Job α σ) (progress : Progress α σ) : Progress α σ → Prop where
  | step {phase : Phase α} {state : State α σ}
      (h : Step job.setting progress.phase progress.state phase state) :
      Move job progress { progress with phase, state }
  | turn {outcomes : List Outcome} (hp : progress.phase = ⟨[], [], outcomes.reverse⟩)
      (hd : progress.done.length < 3) : Move job progress (progress.turned job outcomes)

def Moves (job : Job α σ) : Progress α σ → Progress α σ → Prop :=
  Relation.ReflTransGen (Move job)

variable {job : Job α σ}

theorem Reaches.moves {a b : Phase α × State α σ} (h : Reaches job.setting a b)
    (done : List (List Outcome)) : Moves job ⟨done, a.1, a.2⟩ ⟨done, b.1, b.2⟩ := by
  induction h with
  | refl => exact .refl
  | tail _ hb ih => exact ih.tail (.step (step_of_step? hb))

/-- From everything that a run comes to it can go on to its end. -/
theorem exists_over {progress : Progress α σ} (hd : progress.done.length ≤ 3) :
    ∃ last, Moves job progress last ∧ last.Over := by
  -- The induction is on the number of stages that are left.
  induction hn : 3 - progress.done.length generalizing progress with
  | zero => exact ⟨progress, .refl, show progress.done.length = 3 by omega⟩
  | succ n ih =>
    obtain ⟨outcomes, final, -, hr⟩ := exists_last job.width_pos progress.phase progress.state
    let ended : Progress α σ := ⟨progress.done, ⟨[], [], outcomes.reverse⟩, final⟩
    have hended : Moves job progress ended := hr.moves progress.done
    have hturn : Move job ended (ended.turned job outcomes) :=
      .turn rfl (show progress.done.length < 3 by omega)
    have hlen : (ended.turned job outcomes).done.length = progress.done.length + 1 :=
      List.length_append
    have hle : (ended.turned job outcomes).done.length ≤ 3 := by omega
    obtain ⟨last, hm, hl⟩ := ih hle (by omega)
    exact ⟨last, (hended.tail hturn).trans hm, hl⟩

/-- A run by itself is one way in which its job can go on to its end. -/
theorem Job.moves_ended (job : Job α σ) : Moves job job.begun
    ⟨[job.ended.1.frames, job.ended.1.boxes, job.ended.1.lines], { waiting := [] },
      job.ended.2⟩ := by
  have hstage : ∀ kind (done : List (List Outcome)), done.length < 3 →
      Moves job ⟨done, { waiting := (job.entry kind).1.zipIdx }, (job.entry kind).2⟩
        (Progress.turned job ⟨done, ⟨[], [], (job.exit kind).1.reverse⟩, (job.exit kind).2⟩
          (job.exit kind).1) :=
    fun kind done hd => (Reaches.moves (job.passes_entry kind).reaches done).tail (.turn rfl hd)
  have hframes := hstage .frame [] (by simp)
  have hboxes := hstage .box [(job.exit .frame).1] (by simp)
  have hlines := hstage .line [(job.exit .frame).1, (job.exit .box).1] (by simp)
  exact hframes.trans (hboxes.trans hlines)

/-- The outcomes of stages that were taken one after another, and what became of their items. -/
inductive Fared (job : Job α σ) : List (List Outcome) → List (Fate α) → Prop where
  | nil : Fared job [] []
  | stage {done : List (List Outcome)} {past fates : List (Fate α)} (h : Fared job done past)
      (hs : Served job.setting (Fate.calls past).length (job.requests done).zipIdx fates) :
      Fared job (done ++ [fates.map Fate.outcome]) (past ++ fates)

theorem Fared.eq_nil {all : List (Fate α)} (h : Fared job [] all) : all = [] := by
  generalize hd : ([] : List (List Outcome)) = done at h
  cases h with
  | nil => rfl
  | stage => exact absurd hd.symm (List.append_ne_nil_of_right_ne_nil _ (List.cons_ne_nil _ _))

theorem Fared.last {done : List (List Outcome)} {outcomes : List Outcome} {all : List (Fate α)}
    (h : Fared job (done ++ [outcomes]) all) : ∃ past fates, all = past ++ fates ∧
      Fared job done past ∧ outcomes = fates.map Fate.outcome ∧
      Served job.setting (Fate.calls past).length (job.requests done).zipIdx fates := by
  generalize hd : done ++ [outcomes] = others at h
  cases h with
  | nil => exact absurd hd (List.append_ne_nil_of_right_ne_nil _ (List.cons_ne_nil _ _))
  | @stage done' past fates h hs =>
    obtain ⟨rfl, ho⟩ := List.append_inj' hd rfl
    exact ⟨past, fates, rfl, h, List.head_eq_of_cons_eq ho, hs⟩

/-- What has become of the items of a run so far: of those of the stages that it has ended, and of
those that have entered the window in the present one. -/
structure Told (job : Job α σ) (progress : Progress α σ) (past fates : List (Fate α))
    (start : State α σ) (log : List (Event α)) : Prop where
  bound : progress.done.length ≤ 3
  fared : Fared job progress.done past
  logged : Logged job.setting start (job.requests progress.done).zipIdx fates log progress.phase
    progress.state
  calls : start.calls = Fate.calls past
  started : start.started = (Fate.calls past).length
  finished : ∀ call answer, .finish call answer ∈ start.events ↔ .called call answer ∈ past

namespace Told

variable {progress : Progress α σ} {past fates : List (Fate α)} {start : State α σ}
  {log : List (Event α)}

theorem begun (hs : job.start.started = 0) (he : job.start.events = []) :
    Told job job.begun [] [] job.start [] where
  bound := Nat.zero_le 3
  fared := .nil
  logged := .init _ _
  calls := by rw [State.calls, he]; rfl
  started := hs
  finished := by simp [he]

/-- What becomes of the items of a run is not decided by what others do to the canvas meanwhile. -/
theorem on (h : Told job progress past fates start log) (canvas : σ) :
    Told job (progress.on canvas) past fates start log := by
  obtain ⟨hb, hf, ⟨⟨hserved, hshown, hcalls, hstarted⟩, hshow, hv, ha, hfin, hbal⟩, hc, hn, he⟩ := h
  exact ⟨hb, hf, ⟨⟨hserved, hshown, hcalls, hstarted⟩, hshow, hv, ha, hfin, hbal⟩, hc, hn, he⟩

theorem add (h : Told job progress past fates start log) {phase : Phase α} {state : State α σ}
    {more : List (Fate α)} {seen : List (Event α)}
    (ha : Adds job.setting fates progress.phase progress.state phase state more seen) :
    Told job { progress with phase, state } past (fates ++ more) start (log ++ seen) :=
  ⟨h.bound, h.fared, h.logged.append ha, h.calls, h.started, h.finished⟩

/-- When nothing is left in a stage, all its calls have been seen to end. -/
theorem turn (h : Told job progress past fates start log) {outcomes : List Outcome}
    (hp : progress.phase = ⟨[], [], outcomes.reverse⟩) (hd : progress.done.length < 3) :
    Told job (progress.turned job outcomes) (past ++ fates) [] progress.state [] := by
  obtain ⟨⟨⟨entered, hi, hserved⟩, -, hcalls, hstarted⟩, hshow, hv, -, hfin, -⟩ := h.logged
  rw [hp, List.append_nil] at hi
  rw [hp, slots_last] at hshow
  obtain ⟨rfl, hends⟩ := Tracks.outcomes_eq hshow
  refine ⟨?_, h.fared.stage (h.started ▸ hi ▸ hserved), .init _ _, ?_, ?_, ?_⟩
  · rw [Progress.turned, List.length_append]
    exact hd
  · rw [hcalls, h.calls, Fate.calls_append]
  · rw [hstarted, h.started, Fate.calls_append, List.length_append]
  · intro call answer
    rw [hv, List.mem_append, List.mem_reverse, List.mem_append, h.finished]
    constructor
    · rintro (hm | hm)
      · exact .inr (hfin call answer hm)
      · exact .inl hm
    · rintro (hm | hm)
      · exact .inr hm
      · exact .inl (hends call answer hm)

end Told

/-- What has become of all items of a run so far. -/
def Tells (job : Job α σ) (progress : Progress α σ) (all : List (Fate α)) : Prop :=
  ∃ past fates start log, all = past ++ fates ∧ Told job progress past fates start log

theorem Tells.bound {progress : Progress α σ} {all : List (Fate α)} (h : Tells job progress all) :
    progress.done.length ≤ 3 := by
  obtain ⟨past, fates, start, log, -, ht⟩ := h
  exact ht.bound

/-- A move leaves the canvas as it is, or lets the next item meet its fate there. -/
theorem Tells.move {progress next : Progress α σ} {all : List (Fate α)}
    (h : Tells job progress all) (hm : Move job progress next) :
    (Tells job next all ∧ next.state.canvas = progress.state.canvas) ∨
      ∃ item ∈ progress.phase.waiting,
        Tells job next (all ++ [progress.state.fate job.setting item]) ∧
        next.state.canvas = (progress.state.enter job.setting item).2.canvas := by
  obtain ⟨past, fates, start, log, rfl, ht⟩ := h
  have hsame : ∀ {phase state seen},
      Adds job.setting fates progress.phase progress.state phase state [] seen →
      Tells job { progress with phase, state } (past ++ fates) :=
    fun ha => ⟨past, fates, start, _, rfl, List.append_nil fates ▸ ht.add ha⟩
  cases hm with
  | step hs =>
    cases hs with
    | collect hw => exact .inl ⟨hsame (.of_collect hw), rfl⟩
    | finish hw => exact .inl ⟨hsame (.of_finish hw ht.logged.shown), rfl⟩
    | enter hw =>
      refine .inr ⟨_, hw ▸ List.mem_cons_self, ?_, rfl⟩
      exact ⟨past, _, start, _, List.append_assoc .., ht.add (.of_enter hw fates)⟩
  | turn hp hd =>
    exact .inl ⟨⟨past ++ fates, [], _, _, (List.append_nil _).symm, ht.turn hp hd⟩, rfl⟩

/-- At the end of a run every stage is told, and so are all calls and all answers. -/
theorem Tells.over {progress : Progress α σ} {all : List (Fate α)} (h : Tells job progress all)
    (ho : progress.Over) : Fared job progress.done all ∧ progress.state.calls = Fate.calls all ∧
      ∀ call answer, .finish call answer ∈ progress.state.events ↔ .called call answer ∈ all := by
  obtain ⟨past, fates, start, log, rfl, ht⟩ := h
  obtain ⟨⟨⟨entered, hi, hserved⟩, -, hcalls, -⟩, -, hv, -, hfin, -⟩ := ht.logged
  have hnone : job.requests progress.done = [] := by
    obtain ⟨frames, boxes, lines, hd⟩ := List.length_eq_three.1 ho
    rw [hd]
    rfl
  rw [hnone] at hi
  obtain rfl : entered = [] := (List.append_eq_nil_iff.1 hi.symm).1
  cases hserved
  rw [List.append_nil]
  refine ⟨ht.fared, by rw [hcalls, ht.calls]; exact List.append_nil _, ?_⟩
  intro call answer
  rw [hv, List.mem_append, List.mem_reverse, ht.finished]
  exact or_iff_right fun hm => List.not_mem_nil (hfin call answer hm)

/-- What was created in a stage was called for with success. -/
theorem Served.created {setting : Setting α σ} {number i : Nat} {kind : Kind} {id : String}
    {requests : List (Option (Request α))} {fates : List (Fate α)}
    (h : Served setting number requests.zipIdx fates)
    (hk : ∀ request, some request ∈ requests → request.kind = kind)
    (hc : (fates.map Fate.outcome)[i]? = some (.created id)) :
    ∃ call, .called call (.ok id) ∈ fates ∧ call.request.kind = kind := by
  rw [List.getElem?_map] at hc
  obtain ⟨fate, hf, ho⟩ := Option.map_eq_some_iff.1 hc
  have hlt : i < requests.length := by
    rw [← List.length_zipIdx (i := 0), ← h.length_eq]
    exact (List.getElem?_eq_some_iff.1 hf).1
  have hi : requests.zipIdx[i]? = some (requests[i], i) := by
    rw [List.getElem?_zipIdx, List.getElem?_eq_getElem hlt]
    simp
  obtain ⟨first, other, hf', hof⟩ := h.getElem? hi
  cases hf.symm.trans hf'
  have hmem := List.mem_of_getElem? hf
  generalize hr : requests[i] = request? at hof
  cases hof with
  | stopped => cases ho
  | unresolved => cases ho
  | @called request _ s =>
    rw [Fate.outcome, ofAnswer_eq_created] at ho
    exact ⟨_, ho ▸ hmem, hk request (hr ▸ List.getElem_mem hlt)⟩

/-- A run refers to nothing but items that it has created. -/
theorem Fared.references {done : List (List Outcome)} {all : List (Fate α)}
    (h : Fared job done all) (hp : job.options.parent = none) {request : Request α}
    (hr : some request ∈ job.requests done) : ∀ ref ∈ request.references,
      ∃ call, .called call (.ok ref.2) ∈ all ∧ call.request.kind = ref.1 := by
  match done with
  | [] =>
    obtain ⟨item, -, hi⟩ := List.mem_map.1 hr
    cases hi
    exact nofun
  | [frames] =>
    obtain ⟨past, fates, rfl, -, rfl, hs⟩ :=
      Fared.last (show Fared job ([] ++ [frames]) all from h)
    obtain ⟨item, -, hi⟩ := List.mem_map.1 hr
    cases hi
    intro ref href
    obtain ⟨id, hid, rfl⟩ := List.mem_map.1 href
    have hplaced : ∃ place : Nat, (ids (fates.map Fate.outcome))[place]?.join = some id := by
      simp only [BoxItem.inside, hp] at hid
      cases hplace : item.parent with
      | none => simp [hplace] at hid
      | some place => exact ⟨place, by simpa [hplace] using hid⟩
    obtain ⟨place, hplace⟩ := hplaced
    obtain ⟨call, hm, hk⟩ := hs.created (fun _ => kind_of_frameRequests) (getElem?_ids.1 hplace)
    exact ⟨call, List.mem_append_right _ hm, hk⟩
  | [frames, boxes] =>
    obtain ⟨past, fates, rfl, -, rfl, hs⟩ :=
      Fared.last (show Fared job ([frames] ++ [boxes]) all from h)
    obtain ⟨item, -, hi⟩ := List.mem_map.1 hr
    simp only [Option.bind_eq_bind, Option.bind_eq_some_iff, Option.pure_def,
      Option.some.injEq] at hi
    obtain ⟨source, hsource, target, htarget, rfl⟩ := hi
    have hcreated : ∀ {place : Nat} {id : String},
        (ids (fates.map Fate.outcome))[place]?.join = some id → ∃ call,
          .called call (.ok id) ∈ past ++ fates ∧ call.request.kind = .box := by
      intro place id hplace
      obtain ⟨call, hm, hk⟩ := hs.created (fun _ => kind_of_boxRequests) (getElem?_ids.1 hplace)
      exact ⟨call, List.mem_append_right _ hm, hk⟩
    intro ref href
    simp only [Request.references, LineItem.between, List.mem_cons, List.not_mem_nil,
      or_false] at href
    rcases href with rfl | rfl
    · exact hcreated hsource
    · exact hcreated htarget
  | _ :: _ :: _ :: _ => exact absurd hr (List.not_mem_nil)

theorem Tells.references {progress : Progress α σ} {all : List (Fate α)}
    (h : Tells job progress all) (hp : job.options.parent = none) {request : Request α}
    {place : Nat} (hw : (some request, place) ∈ progress.phase.waiting) :
    ∀ ref ∈ request.references,
      ∃ call, .called call (.ok ref.2) ∈ all ∧ call.request.kind = ref.1 := by
  obtain ⟨past, fates, start, log, rfl, ht⟩ := h
  obtain ⟨entered, hi, -⟩ := ht.logged.tracks.served
  have hr : some request ∈ job.requests progress.done :=
    List.fst_mem_of_mem_zipIdx (hi ▸ List.mem_append_right entered hw)
  intro ref href
  obtain ⟨call, hm, hk⟩ := ht.fared.references hp hr ref href
  exact ⟨call, List.mem_append_left _ hm, hk⟩

end Chartboard.Run
