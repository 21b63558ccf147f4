import Chartboard.Proofs.Canvas.Boards
import Chartboard.Proofs.Run.Renaming
import Chartboard.Proofs.Run.Stopping

namespace Chartboard
open Board

/-- Lists merged into one, in which the items of each keep their order. -/
inductive Merges {β : Type} : List β → List β → List β → Prop where
  | nil : Merges [] [] []
  | left {mine theirs all : List β} {item : β} (h : Merges mine theirs all) :
      Merges (mine ++ [item]) theirs (all ++ [item])
  | right {mine theirs all : List β} {item : β} (h : Merges mine theirs all) :
      Merges mine (theirs ++ [item]) (all ++ [item])

namespace Merges

variable {β : Type} {mine theirs all : List β}

theorem append_left (h : Merges mine theirs all) (more : List β) :
    Merges (mine ++ more) theirs (all ++ more) := by
  induction more generalizing mine all with
  | nil => simpa using h
  | cons item more ih =>
    have hl : Merges (mine ++ [item]) theirs (all ++ [item]) := h.left
    simpa using ih hl

theorem append_right (h : Merges mine theirs all) (more : List β) :
    Merges mine (theirs ++ more) (all ++ more) := by
  induction more generalizing theirs all with
  | nil => simpa using h
  | cons item more ih =>
    have hr : Merges mine (theirs ++ [item]) (all ++ [item]) := h.right
    simpa using ih hr

theorem perm (h : Merges mine theirs all) : (mine ++ theirs).Perm all := by
  induction h with
  | nil => exact .refl _
  | @left mine theirs all item _ ih =>
    rw [List.append_assoc, List.singleton_append]
    exact List.perm_middle.trans ((ih.cons item).trans (List.perm_append_singleton item all).symm)
  | @right mine theirs all item _ ih =>
    rw [← List.append_assoc]
    exact ih.append_right [item]

end Merges

namespace Run

section Joint
variable {α σ : Type}

/-- A move of one of two runs on one canvas, which the other one then finds as the move has left it.
-/
inductive Joint (first second : Job α σ) :
    Progress α σ × Progress α σ → Progress α σ × Progress α σ → Prop where
  | first {mine next theirs : Progress α σ} (h : Move first mine next) :
      Joint first second (mine, theirs) (next, theirs.on next.state.canvas)
  | second {mine theirs next : Progress α σ} (h : Move second theirs next) :
      Joint first second (mine, theirs) (mine.on next.state.canvas, next)

/-- Any moves of two runs on one canvas. -/
def Together (first second : Job α σ) :
    Progress α σ × Progress α σ → Progress α σ × Progress α σ → Prop :=
  Relation.ReflTransGen (Joint first second)

variable {first second : Job α σ} {mine next theirs : Progress α σ}

/-- While the other run waits, a run can take any moves that its job allows. -/
theorem Moves.joint_first (h : Moves first mine next) (second : Job α σ) (theirs : Progress α σ) :
    ∃ canvas, Together first second (mine, theirs) (next, theirs.on canvas) := by
  induction h with
  | refl => exact ⟨theirs.state.canvas, .refl⟩
  | tail _ hm ih =>
    obtain ⟨canvas, ht⟩ := ih
    exact ⟨_, ht.tail (.first hm)⟩

theorem Moves.joint_second (h : Moves second theirs next) (first : Job α σ) (mine : Progress α σ) :
    ∃ canvas, Together first second (mine, theirs) (mine.on canvas, next) := by
  induction h with
  | refl => exact ⟨mine.state.canvas, .refl⟩
  | tail _ hm ih =>
    obtain ⟨canvas, ht⟩ := ih
    exact ⟨_, ht.tail (.second hm)⟩

/-- Whatever two runs have come to, both can go on to their ends. -/
theorem Together.exists_over (hm : mine.done.length ≤ 3) (ht : theirs.done.length ≤ 3) :
    ∃ mine' theirs', Together first second (mine, theirs) (mine', theirs') ∧ mine'.Over ∧
      theirs'.Over := by
  obtain ⟨mine', hmine, ho⟩ : ∃ last, Moves first mine last ∧ last.Over := Run.exists_over hm
  obtain ⟨canvas, hfirst⟩ := hmine.joint_first second theirs
  obtain ⟨theirs', htheirs, ho'⟩ : ∃ last, Moves second (theirs.on canvas) last ∧ last.Over :=
    Run.exists_over ht
  obtain ⟨canvas', hsecond⟩ := htheirs.joint_second first mine'
  exact ⟨mine'.on canvas', theirs', hfirst.trans hsecond, ho, ho'⟩

/-- Items that refer to each other and to none of the others. -/
def Confined (mine theirs : List (BoardItem α)) : Prop :=
  ∀ item ∈ mine, ∀ ref ∈ item.request.references,
    (∃ target ∈ mine, target.request.kind = ref.1 ∧ target.id = ref.2) ∧
      ∀ other ∈ theirs, other.id ≠ ref.2

theorem confined_of_closed {board : Board α} {ρ : String → String} {others : List (BoardItem α)}
    (h : board.Closed) (hd : ∀ item ∈ board.items.toList.map (·.rename ρ), ∀ other ∈ others,
      item.id ≠ other.id) : Confined (board.items.toList.map (·.rename ρ)) others := by
  intro item hm ref hr
  obtain ⟨original, ho, rfl⟩ := List.mem_map.1 hm
  rw [BoardItem.rename, references_rename, List.mem_map] at hr
  obtain ⟨ref, hr, rfl⟩ := hr
  obtain ⟨target, ht, hk, hid⟩ := h original (Array.mem_toList_iff.1 ho) ref hr
  have htarget : target.rename ρ ∈ board.items.toList.map (·.rename ρ) :=
    List.mem_map_of_mem (Array.mem_toList_iff.2 ht)
  have hid' : (target.rename ρ).id = ρ ref.2 := congrArg ρ hid
  refine ⟨⟨_, htarget, ?_, hid'⟩, ?_⟩
  · rw [← hk, BoardItem.rename, kind_rename]
  · intro other hother he
    exact hd _ htarget other hother (hid'.trans he.symm)

end Joint

variable {α : Type} [Coordinate α] {newId : Nat → String}

/-- A job on a board that is empty at first, with no frame around its plan and with nothing that
stops it. -/
structure Job.Fresh (newId : Nat → String) (job : Job α (Board α)) : Prop where
  unstopped : job.Unstopped
  canvas : job.canvas = Board.canvas newId
  start : job.start = { canvas := {}, cancelled := false }
  parent : job.options.parent = none

/-- How a run has fared on a board on which there may be other things, too: all its calls were
decided by what they ask for, and what it has created is there. -/
structure Fares (job : Job α (Board α)) (progress : Progress α (Board α)) (all : List (Fate α)) :
    Prop where
  tells : Tells job progress all
  decided : ∀ fate ∈ all, fate.Decided
  going : progress.state.cancelled = false
  landed : ∀ item ∈ Fate.items all, item ∈ progress.state.canvas.items

namespace Fares

variable {job : Job α (Board α)} {progress next : Progress α (Board α)} {all : List (Fate α)}

theorem begun (hj : job.Fresh newId) : Fares job job.begun [] where
  tells := ⟨[], [], _, _, rfl, .begun (by rw [hj.start]) (by rw [hj.start])⟩
  decided := by simp
  going := by rw [Job.begun, hj.start]
  landed := by simp [Fate.items]

/-- Nothing changes for a run when more comes to the board. -/
theorem on (h : Fares job progress all) {board : Board α}
    (hb : ∀ item ∈ progress.state.canvas.items, item ∈ board.items) :
    Fares job (progress.on board) all := by
  obtain ⟨past, fates, start, log, he, ht⟩ := h.tells
  exact ⟨⟨past, fates, start, log, he, ht.on board⟩, h.decided, h.going,
    fun item hm => hb item (h.landed item hm)⟩

/-- All that a waiting item refers to stands on the board. -/
theorem knows (h : Fares job progress all) (hp : job.options.parent = none) {request : Request α}
    {place : Nat} (hw : (some request, place) ∈ progress.phase.waiting) :
    progress.state.canvas.Knows request := by
  intro ref href
  obtain ⟨call, hm, hk⟩ := h.tells.references hp hw ref href
  have hitem : ⟨ref.2, call.board, call.request⟩ ∈ Fate.items all :=
    List.mem_filterMap.2 ⟨_, hm, rfl⟩
  obtain ⟨place, hplace⟩ := Array.mem_iff_getElem?.1 (h.landed _ hitem)
  exact mem_ids.2 ⟨place, _, hplace, hk, rfl⟩

/-- An item of which the board knows all that it refers to meets a fate that is decided, and stands
on the board afterwards if it was created. -/
theorem enter (hj : job.Fresh newId) {state : State α (Board α)}
    (hs : state.isStopped job.setting = false) (hn : Numbered newId state.canvas)
    {item : Option (Request α) × Nat}
    (hk : ∀ request ∈ item.1, state.canvas.Knows request) :
    (state.fate job.setting item).Decided ∧
      Numbered newId (state.enter job.setting item).2.canvas ∧
      (state.enter job.setting item).2.canvas.items.toList =
        state.canvas.items.toList ++ Fate.items [state.fate job.setting item] := by
  obtain ⟨request?, place⟩ := item
  rw [fate_of_going hs, enter_of_going hs]
  cases request? with
  | none => exact ⟨trivial, hn, (List.append_nil _).symm⟩
  | some request =>
    let call : Call α := ⟨state.started, place, job.setting.board, request⟩
    have hcanvas : job.setting.canvas = Board.canvas newId := hj.canvas
    have hcall : state.canvas.Knows call.request := hk request rfl
    have ha := answer_of_knows newId hn.indexed hcall
    have hnumbered := hn.answer call
    simp only [State.start, hcanvas]
    cases hwhy : call.refusal? with
    | some why =>
      rw [hwhy] at ha
      rw [ha] at hnumbered ⊢
      refine ⟨?_, hnumbered, (List.append_nil _).symm⟩
      rw [Fate.Decided, hwhy]
    | none =>
      rw [hwhy] at ha
      rw [ha] at hnumbered ⊢
      refine ⟨?_, hnumbered, Array.toList_push⟩
      rw [Fate.Decided, hwhy]
      exact ⟨_, rfl⟩

/-- A move of a run adds to the board what it creates. -/
theorem move (hj : job.Fresh newId) (h : Fares job progress all)
    (hn : Numbered newId progress.state.canvas) (hm : Move job progress next) :
    ∃ more, Fares job next (all ++ more) ∧ Numbered newId next.state.canvas ∧
      next.state.canvas.items.toList = progress.state.canvas.items.toList ++ Fate.items more := by
  have hgoing : next.state.cancelled = false := by
    cases hm with
    | step hs => exact hj.unstopped.step hs h.going
    | turn => exact h.going
  rcases h.tells.move hm with ⟨ht, hc⟩ | ⟨item, hw, ht, hc⟩
  · rw [hc]
    exact ⟨[], ⟨(List.append_nil all).symm ▸ ht, by simpa using h.decided, hgoing,
      by simpa [hc] using h.landed⟩, hn, (List.append_nil _).symm⟩
  · have hs := hj.unstopped.isStopped h.going
    have hk : ∀ request ∈ item.1, progress.state.canvas.Knows request := by
      intro request hr
      have hsome : (some request, item.2) ∈ progress.phase.waiting := by
        rw [← Option.mem_def.1 hr]
        exact hw
      exact h.knows hj.parent hsome
    obtain ⟨hd, hnumbered, hitems⟩ := enter hj hs hn hk
    rw [← hc] at hnumbered hitems
    refine ⟨_, ⟨ht, ?_, hgoing, ?_⟩, hnumbered, hitems⟩
    · rw [List.forall_mem_append]
      exact ⟨h.decided, by simpa using hd⟩
    · intro new hnew
      rw [Fate.items_append, List.mem_append] at hnew
      rw [← Array.mem_toList_iff, hitems, List.mem_append]
      exact hnew.imp_left fun hm => Array.mem_toList_iff.2 (h.landed new hm)

/-- A run by itself fills the board with its own items only. -/
theorem alone (hj : job.Fresh newId) (h : Moves job job.begun progress) : ∃ all,
    Fares job progress all ∧ Numbered newId progress.state.canvas ∧
      progress.state.canvas.items.toList = Fate.items all := by
  induction h with
  | refl =>
    have hcanvas : job.begun.state.canvas = {} := by rw [Job.begun, hj.start]
    exact ⟨[], begun hj, hcanvas ▸ .empty, by rw [hcanvas]; rfl⟩
  | tail _ hm ih =>
    obtain ⟨all, hf, hn, hi⟩ := ih
    obtain ⟨more, hf, hn, hi'⟩ := hf.move hj hn hm
    exact ⟨all ++ more, hf, hn, by rw [hi', hi, Fate.items_append]⟩

end Fares

/-- What two runs have created on a board, the one and the other. -/
structure Share (newId : Nat → String) (first second : Job α (Board α))
    (mine theirs : Progress α (Board α)) (own other : List (Fate α)) : Prop where
  first : Fares first mine own
  second : Fares second theirs other
  board : theirs.state.canvas = mine.state.canvas
  numbered : Numbered newId mine.state.canvas
  merges : Merges (Fate.items own) (Fate.items other) mine.state.canvas.items.toList

variable {first second : Job α (Board α)} {mine theirs : Progress α (Board α)}

/-- Whatever moves two runs make in turn, the board holds what the one has created and what the
other has, each in its order. -/
theorem Together.exists_share (hf : first.Fresh newId) (hs : second.Fresh newId)
    (h : Together first second (first.begun, second.begun) (mine, theirs)) :
    ∃ own other, Share newId first second mine theirs own other := by
  generalize hend : (mine, theirs) = last at h
  induction h generalizing mine theirs with
  | refl =>
    cases hend
    have hcanvas : first.begun.state.canvas = {} := by rw [Job.begun, hf.start]
    refine ⟨[], [], .begun hf, .begun hs, ?_, hcanvas ▸ .empty, by rw [hcanvas]; exact .nil⟩
    rw [hcanvas, Job.begun, hs.start]
  | tail _ hj ih =>
    -- The run that does not move finds the board with more on it.
    cases hj with
    | first hm =>
      cases hend
      obtain ⟨own, other, hfirst, hsecond, hb, hn, hmerges⟩ := ih rfl
      obtain ⟨more, hfirst, hn, hi⟩ := hfirst.move hf hn hm
      refine ⟨own ++ more, other, hfirst, hsecond.on ?_, rfl, hn, ?_⟩
      · intro item hm
        rw [hb, ← Array.mem_toList_iff] at hm
        rw [← Array.mem_toList_iff, hi]
        exact List.mem_append_left _ hm
      · rw [hi, Fate.items_append]
        exact hmerges.append_left _
    | second hm =>
      cases hend
      obtain ⟨own, other, hfirst, hsecond, hb, hn, hmerges⟩ := ih rfl
      obtain ⟨more, hsecond, hn, hi⟩ := hsecond.move hs (hb ▸ hn) hm
      rw [hb] at hi
      refine ⟨own, other ++ more, hfirst.on ?_, hsecond, rfl, hn, ?_⟩
      · intro item hm
        rw [← Array.mem_toList_iff] at hm
        rw [← Array.mem_toList_iff, hi]
        exact List.mem_append_left _ hm
      · rw [Progress.on, hi, Fate.items_append]
        exact hmerges.append_right _

/-- A run that has ended as its job does alone, under other ids: the same calls were made in the
same order and had the same answers, and the same is reported. -/
structure Progress.Matches (ρ : String → String) (job : Job α (Board α))
    (progress : Progress α (Board α)) : Prop where
  calls : progress.state.calls = job.ended.2.calls.map (·.rename ρ)
  answers : ∀ call answer, .finish call answer ∈ progress.state.events ↔
    ∃ other reply, .finish other reply ∈ job.ended.2.events ∧ call = other.rename ρ ∧
      answer = reply.map ρ
  record : progress.record job.plan = job.ended.1.rename ρ
  report : (progress.record job.plan).report = job.ended.1.report.rename ρ
  message : (progress.record job.plan).report.message = job.ended.1.report.message
  /-- The other ids are as distinct. -/
  distinct : Set.InjOn ρ {id | ∃ item ∈ job.ended.2.canvas.items, item.id = id}

/-- A run that has ended on a shared board matches the run of its job alone. -/
theorem Fares.exists_matches {job : Job α (Board α)} {progress : Progress α (Board α)}
    {all : List (Fate α)} (hj : job.Fresh newId) (hi : Function.Injective newId)
    (h : Fares job progress all) (ho : progress.Over) (hn : (Fate.ids all).Nodup) :
    ∃ ρ, progress.Matches ρ job ∧
      Fate.items all = job.ended.2.canvas.items.toList.map (·.rename ρ) := by
  obtain ⟨told, halone, hnumbered, hitems⟩ := Fares.alone hj job.moves_ended
  have hdistinct : (Fate.ids told).Nodup := by
    rw [Fate.ids, ← hitems]
    exact (hnumbered.consistent (Nat.le_refl _) hi.injOn).distinct
  obtain ⟨ρ, hr⟩ := Renames.exists_renames hdistinct (Fate.ids all)
  obtain ⟨hfared, hcalls, hfinished⟩ := h.tells.over ho
  obtain ⟨hfared', hcalls', hfinished'⟩ := halone.tells.over rfl
  obtain ⟨hdone, rfl⟩ :=
    hfared'.renamed hj.parent hfared ho halone.decided h.decided hr
  have hrecord : progress.record job.plan = job.ended.1.rename ρ := by
    rw [Progress.record, hdone]
    rfl
  refine ⟨ρ, ⟨?_, ?_, hrecord, ?_, ?_, ?_⟩, ?_⟩
  · rw [hcalls, Fate.calls_rename, ← hcalls']
  · intro call answer
    simp only [hfinished, Fate.mem_rename, hfinished']
  · rw [hrecord, report_rename]
  · rw [hrecord, report_rename, message_rename]
  · intro id hid other hother he
    have hmem : ∀ {id}, (∃ item ∈ job.ended.2.canvas.items, item.id = id) → id ∈ Fate.ids told := by
      rintro _ ⟨item, hm, rfl⟩
      rw [Fate.ids, ← hitems]
      exact List.mem_map_of_mem (Array.mem_toList_iff.2 hm)
    rw [Fate.ids_rename] at hn
    exact List.inj_on_of_nodup_map hn (hmem hid) (hmem hother) he
  · rw [Fate.items_rename, ← hitems]

/-- Two runs on one board, whose moves come in any order, can always go on to their ends. There each
has made the calls, had the answers and reports what it does on a board of its own, under other ids,
and the board holds what the one creates there and what the other does, merged into one list in
which no item refers to one of the other run. -/
theorem runs_do_not_disturb_each_other (hi : Function.Injective newId) (hf : first.Fresh newId)
    (hs : second.Fresh newId)
    (h : Together first second (first.begun, second.begun) (mine, theirs)) :
    (∃ mine' theirs', Together first second (mine, theirs) (mine', theirs') ∧ mine'.Over ∧
      theirs'.Over) ∧
    (mine.Over → theirs.Over → ∃ ρ τ : String → String,
      mine.Matches ρ first ∧ theirs.Matches τ second ∧
      theirs.state.canvas = mine.state.canvas ∧
      (mine.state.canvas.items.toList.map (·.id)).Nodup ∧
      let own := first.ended.2.canvas.items.toList.map (·.rename ρ)
      let other := second.ended.2.canvas.items.toList.map (·.rename τ)
      Merges own other mine.state.canvas.items.toList ∧ Confined own other ∧
        Confined other own) := by
  obtain ⟨own, other, hfirst, hsecond, hb, hn, hmerges⟩ := h.exists_share hf hs
  refine ⟨Together.exists_over hfirst.tells.bound hsecond.tells.bound, ?_⟩
  intro hover hover'
  have hdistinct : (mine.state.canvas.items.toList.map (·.id)).Nodup :=
    (hn.consistent (Nat.le_refl _) hi.injOn).distinct
  have hboth : (Fate.ids own ++ Fate.ids other).Nodup := by
    rw [Fate.ids, Fate.ids, ← List.map_append]
    exact (hmerges.perm.map _).nodup_iff.2 hdistinct
  obtain ⟨hmine, htheirs, hapart⟩ := List.nodup_append.1 hboth
  have hdisjoint : ∀ item ∈ Fate.items own, ∀ item' ∈ Fate.items other, item.id ≠ item'.id :=
    fun item hm item' hm' => hapart _ (List.mem_map_of_mem hm) _ (List.mem_map_of_mem hm')
  obtain ⟨ρ, hρ, hown⟩ := hfirst.exists_matches hf hi hover hmine
  obtain ⟨τ, hτ, hother⟩ := hsecond.exists_matches hs hi hover' htheirs
  rw [hown, hother] at hmerges hdisjoint
  obtain ⟨-, -, hnumbered, -⟩ := Fares.alone hf first.moves_ended
  obtain ⟨-, -, hnumbered', -⟩ := Fares.alone hs second.moves_ended
  exact ⟨ρ, τ, hρ, hτ, hb, hdistinct, hmerges,
    confined_of_closed hnumbered.grounded.closed hdisjoint,
    confined_of_closed hnumbered'.grounded.closed fun item hm other hm' =>
      (hdisjoint other hm' item hm).symm⟩

/-- As many strokes as the number says. -/
def tally (n : Nat) : String :=
  String.ofList (List.replicate n '|')

theorem tally_injective : Function.Injective tally := by
  intro n m h
  have hl : (List.replicate n '|').length = (List.replicate m '|').length :=
    congrArg List.length (String.ofList_injective h)
  simpa using hl

/-- A frame of nine by nine, and in it a box of some width with a line to itself. -/
def room (name : String) (concurrency : Nat) (width : Rat) : Job Rat (Board Rat) where
  canvas := Board.canvas tally
  conditions := { duration := id }
  options := { concurrency }
  board := name
  plan := {
    frames := [⟨none, 0, 0, 9, 9, none⟩]
    boxes := [⟨.rectangle, false, "b", 0, 0, width, 1, none, none, some 0⟩]
    lines := [⟨0, 0, none, .solid, .straight, .none, .none⟩]
    width := 9
    height := 9 }
  start := { canvas := {}, cancelled := false }

theorem room_fresh (name : String) (concurrency : Nat) (width : Rat) :
    (room name concurrency width).Fresh tally :=
  ⟨⟨rfl, fun _ => rfl, fun _ => rfl, nofun⟩, rfl, rfl, rfl⟩

/-- Two rooms are drawn at the same time, and in one of them the box fails for its width. -/
theorem rooms_do_not_disturb :
    let first := room "attic" 2 3
    let second := room "cellar" 0 0
    Function.Injective tally ∧ first.Fresh tally ∧ second.Fresh tally ∧
    ∃ mine theirs, Together first second (first.begun, second.begun) (mine, theirs) ∧
      mine.Over ∧ theirs.Over ∧ ∃ ρ τ : String → String,
        mine.Matches ρ first ∧ theirs.Matches τ second ∧
        let own := first.ended.2.canvas.items.toList.map (·.rename ρ)
        let other := second.ended.2.canvas.items.toList.map (·.rename τ)
        Merges own other mine.state.canvas.items.toList ∧ Confined own other ∧
          Confined other own := by
  intro first second
  have hf : first.Fresh tally := room_fresh _ _ _
  have hs : second.Fresh tally := room_fresh _ _ _
  -- The second run calls for its frame, and then the first one for its own.
  obtain ⟨theirs', ht⟩ : ∃ next, Move second second.begun next :=
    ⟨_, .step (.enter rfl second.width_pos)⟩
  obtain ⟨mine', hm⟩ : ∃ next, Move first (first.begun.on theirs'.state.canvas) next :=
    ⟨_, .step (.enter rfl first.width_pos)⟩
  have hstart : Together first second (first.begun, second.begun)
      (mine', theirs'.on mine'.state.canvas) :=
    (Relation.ReflTransGen.single (.second ht)).tail (.first hm)
  obtain ⟨⟨mine, theirs, hrest, ho, ho'⟩, -⟩ :=
    runs_do_not_disturb_each_other tally_injective hf hs hstart
  have hall : Together first second (first.begun, second.begun) (mine, theirs) :=
    hstart.trans hrest
  obtain ⟨-, hend⟩ := runs_do_not_disturb_each_other tally_injective hf hs hall
  obtain ⟨ρ, τ, hρ, hτ, -, -, hmerges⟩ := hend ho ho'
  exact ⟨tally_injective, hf, hs, mine, theirs, hall, ho, ho', ρ, τ, hρ, hτ, hmerges⟩

end Run
end Chartboard
