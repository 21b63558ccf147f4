import Chartboard.Proofs.Run.Progress

namespace Chartboard
open Board

variable {α : Type} {ρ : String → String}

def Request.rename (ρ : String → String) : Request α → Request α
  | .frame item => .frame item
  | .box item => .box (item.inside (item.parent.map ρ))
  | .line item => .line (item.between (ρ item.source) (ρ item.target))

def Call.rename (ρ : String → String) (call : Call α) : Call α :=
  { call with request := call.request.rename ρ }

def BoardItem.rename (ρ : String → String) (item : BoardItem α) : BoardItem α :=
  { item with id := ρ item.id, request := item.request.rename ρ }

theorem references_rename (request : Request α) :
    (request.rename ρ).references = request.references.map fun ref => (ref.1, ρ ref.2) := by
  cases request with
  | frame => rfl
  | box item =>
    simp only [Request.rename, Request.references, BoxItem.inside]
    cases item.parent <;> rfl
  | line => rfl

theorem kind_rename (request : Request α) : (request.rename ρ).kind = request.kind := by
  cases request <;> rfl

/-- Why a call fails that refers to nothing unknown. -/
def Call.refusal? [Coordinate α] (call : Call α) : Option (CanvasError α) :=
  if call.board.toList.all Text.isBlank then
    some (.boardNotFound call.board)
  else
    (call.request.size?.filter fun size => !isUsableSize size.1 size.2).map fun size =>
      .rejected (.size size.1 size.2)

theorem refusal?_rename [Coordinate α] (call : Call α) :
    (call.rename ρ).refusal? = call.refusal? := by
  obtain ⟨number, place, name, request⟩ := call
  cases request <;> rfl

/-- What a board with other things on it answers to such a call, and what it is afterwards. -/
theorem Board.answer_of_knows [Coordinate α] (newId : Nat → String) {board : Board α}
    (hi : board.Indexed) {call : Call α} (hk : board.Knows call.request) :
    (canvas newId).answer board call = match call.refusal? with
      | some why => (.error why, board)
      | none => (.ok (newId board.items.size),
        board.insert ⟨newId board.items.size, call.board, call.request⟩) := by
  obtain ⟨number, place, name, request⟩ := call
  cases hn : name.toList.all Text.isBlank with
  | true => simp only [canvas, create, Call.refusal?, hn, if_true]
  | false =>
    have hr : board.rejection? request = (request.size?.filter fun size =>
        !isUsableSize size.1 size.2).map fun size => .size size.1 size.2 := by
      cases request with
      | frame item =>
        simp only [rejection?, Request.size?]
        cases hs : isUsableSize item.width item.height <;> simp [hs]
      | box item =>
        have hparent : (item.parent.filter fun id => !board.frames.contains id) = none := by
          rw [Option.filter_eq_none_iff]
          intro id hid
          have hm := (hi.frames id).2 (hk (.frame, id) (by simpa [Request.references] using hid))
          simp [hm]
        simp only [rejection?, Request.size?, hparent]
        cases hs : isUsableSize item.width item.height <;> simp [hs]
      | line item =>
        have hs := (hi.boxes item.source).2 (hk (.box, item.source) (by simp [Request.references]))
        have ht := (hi.boxes item.target).2 (hk (.box, item.target) (by simp [Request.references]))
        simp [rejection?, Request.size?, hs, ht]
    simp only [canvas, create, Call.refusal?, hn, hr]
    cases request.size?.filter fun size => !isUsableSize size.1 size.2 <;> rfl

namespace Run

def Outcome.rename (ρ : String → String) : Outcome → Outcome
  | created id => created (ρ id)
  | outcome => outcome

def Record.rename (ρ : String → String) (record : Record α) : Record α where
  frames := record.frames.map (Outcome.rename ρ)
  boxes := record.boxes.map (Outcome.rename ρ)
  lines := record.lines.map (Outcome.rename ρ)
  width := record.width
  height := record.height

def Report.rename (ρ : String → String) (report : Report α) : Report α where
  nodeIds := report.nodeIds.map ρ
  connectorIds := report.connectorIds.map ρ
  frameIds := report.frameIds.map ρ
  width := report.width
  height := report.height
  cancelled := report.cancelled

theorem report_rename (record : Record α) :
    (record.rename ρ).report = record.report.rename ρ := by
  have hids : ∀ outcomes : List Outcome, (outcomes.map (Outcome.rename ρ)).filterMap Outcome.id? =
      (outcomes.filterMap Outcome.id?).map ρ := by
    intro outcomes
    rw [List.filterMap_map, List.map_filterMap]
    congr 1
    funext outcome
    cases outcome <;> rfl
  have hstopped : ∀ outcomes : List Outcome,
      (outcomes.map (Outcome.rename ρ)).contains .stopped = outcomes.contains .stopped := by
    intro outcomes
    induction outcomes with
    | nil => rfl
    | cons outcome outcomes ih =>
      rw [List.map_cons, List.contains_cons, List.contains_cons, ih]
      cases outcome <;> rfl
  simp only [Record.report, Record.rename, Report.rename, hids, ← List.map_append, hstopped]

/-- A report says the same about items of other names. -/
theorem message_rename (report : Report α) : (report.rename ρ).message = report.message := by
  simp only [Report.message, Report.rename, List.length_map]

namespace Fate

def rename (ρ : String → String) : Fate α → Fate α
  | called call answer => called (call.rename ρ) (answer.map ρ)
  | fate => fate

def item? : Fate α → Option (BoardItem α)
  | called call (.ok id) => some ⟨id, call.board, call.request⟩
  | _ => none

/-- The items that come into being with fates. -/
def items (fates : List (Fate α)) : List (BoardItem α) :=
  fates.filterMap item?

def ids (fates : List (Fate α)) : List String :=
  (items fates).map (·.id)

theorem items_append (fates more : List (Fate α)) :
    items (fates ++ more) = items fates ++ items more :=
  List.filterMap_append

theorem ids_append (fates more : List (Fate α)) : ids (fates ++ more) = ids fates ++ ids more := by
  rw [ids, items_append, List.map_append, ids, ids]

/-- A call that refers to nothing unknown was answered, and no item was stopped. -/
def Decided [Coordinate α] : Fate α → Prop
  | stopped => False
  | unresolved => True
  | called call answer => match call.refusal? with
    | some why => answer = .error why
    | none => ∃ id, answer = .ok id

theorem outcome_rename (fate : Fate α) : (fate.rename ρ).outcome = fate.outcome.rename ρ := by
  match fate with
  | stopped | unresolved | called _ (.ok _) | called _ (.error _) => rfl

theorem item?_rename (fate : Fate α) : (fate.rename ρ).item? = fate.item?.map (·.rename ρ) := by
  match fate with
  | stopped | unresolved | called _ (.ok _) | called _ (.error _) => rfl

theorem items_rename (fates : List (Fate α)) :
    items (fates.map (rename ρ)) = (items fates).map (·.rename ρ) := by
  rw [items, List.filterMap_map, items, List.map_filterMap]
  exact congrArg (List.filterMap · fates) (funext item?_rename)

theorem ids_rename (fates : List (Fate α)) : ids (fates.map (rename ρ)) = (ids fates).map ρ := by
  rw [ids, items_rename, ids, List.map_map, List.map_map]
  rfl

theorem calls_rename (fates : List (Fate α)) :
    calls (fates.map (rename ρ)) = (calls fates).map (·.rename ρ) := by
  rw [calls, List.filterMap_map, calls, List.map_filterMap]
  refine congrArg (List.filterMap · fates) (funext fun fate => ?_)
  cases fate <;> rfl

theorem mem_rename {fates : List (Fate α)} {call : Call α} {answer : Answer α} :
    called call answer ∈ fates.map (rename ρ) ↔
      ∃ other reply, called other reply ∈ fates ∧ call = other.rename ρ ∧
        answer = reply.map ρ := by
  rw [List.mem_map]
  constructor
  · rintro ⟨fate, hm, hf⟩
    cases fate with
    | stopped => cases hf
    | unresolved => cases hf
    | called other reply =>
      cases hf
      exact ⟨other, reply, hm, rfl, rfl⟩
  · rintro ⟨other, reply, hm, rfl, rfl⟩
    exact ⟨_, hm, rfl⟩

end Fate

/-- A renaming that leads from the ids of one list to those at the same places of another. -/
def Renames (ρ : String → String) (names others : List String) : Prop :=
  ∀ (place : Nat) (id other : String), names[place]? = some id → others[place]? = some other →
    ρ id = other

namespace Renames

variable {names others more rest : List String}

theorem exists_renames (h : names.Nodup) (others : List String) : ∃ ρ, Renames ρ names others := by
  refine ⟨fun id => others[names.idxOf id]?.getD "", ?_⟩
  intro place id other hid hother
  obtain ⟨hlt, rfl⟩ := List.getElem?_eq_some_iff.1 hid
  simp only [h.idxOf_getElem place hlt, hother, Option.getD_some]

theorem left (h : Renames ρ (names ++ more) (others ++ rest)) : Renames ρ names others := by
  intro place id other hid hother
  refine h place id other ?_ ?_
  · rw [List.getElem?_append_left (List.getElem?_eq_some_iff.1 hid).1, hid]
  · rw [List.getElem?_append_left (List.getElem?_eq_some_iff.1 hother).1, hother]

theorem right (h : Renames ρ (names ++ more) (others ++ rest))
    (hl : others.length = names.length) : Renames ρ more rest := by
  intro place id other hid hother
  refine h (names.length + place) id other ?_ ?_
  · rw [List.getElem?_append_right (Nat.le_add_right _ _), Nat.add_sub_cancel_left, hid]
  · rw [← hl, List.getElem?_append_right (Nat.le_add_right _ _), Nat.add_sub_cancel_left, hother]

end Renames

variable {σ : Type} {setting : Setting α σ} {job : Job α σ}

/-- An item that is asked for by other names meets the same fate under another name. -/
theorem Fate.Of.renamed [Coordinate α] {number : Nat} {item : Option (Request α) × Nat}
    {fate other : Fate α} (hf : fate.Of setting number item)
    (ho : other.Of setting number (item.1.map (·.rename ρ), item.2)) (hd : fate.Decided)
    (hd' : other.Decided) (hr : Renames ρ (Fate.ids [fate]) (Fate.ids [other])) :
    other = fate.rename ρ := by
  cases hf with
  | stopped => exact absurd hd id
  | unresolved =>
    cases ho with
    | stopped => exact absurd hd' id
    | unresolved => rfl
  | @called request place s =>
    generalize hcall : (⟨number, place, setting.board, request⟩ : Call α) = call at *
    generalize (setting.canvas.answer s call).1 = answer at *
    cases ho with
    | stopped => exact absurd hd' id
    | called t =>
      have hrenamed : (⟨number, place, setting.board, request.rename ρ⟩ : Call α) =
          call.rename ρ := by rw [← hcall]; rfl
      rw [hrenamed] at hd' hr ⊢
      generalize (setting.canvas.answer t (call.rename ρ)).1 = reply at *
      simp only [Fate.Decided, refusal?_rename] at hd hd'
      cases hwhy : call.refusal? with
      | some why =>
        rw [hwhy] at hd hd'
        rw [hd, hd']
        rfl
      | none =>
        rw [hwhy] at hd hd'
        obtain ⟨id, rfl⟩ := hd
        obtain ⟨new, rfl⟩ := hd'
        rw [← hr 0 id new rfl rfl]
        rfl

/-- Items that are asked for by other names fare alike one after another. -/
theorem Served.renamed [Coordinate α] {number : Nat} {items : List (Option (Request α) × Nat)}
    {fates others : List (Fate α)} (hf : Served setting number items fates)
    (ho : Served setting number (items.map (Prod.map (Option.map (·.rename ρ)) id)) others)
    (hd : ∀ fate ∈ fates, fate.Decided) (hd' : ∀ other ∈ others, other.Decided)
    (hr : Renames ρ (Fate.ids fates) (Fate.ids others)) : others = fates.map (·.rename ρ) := by
  induction hf generalizing others with
  | nil =>
    cases ho
    rfl
  | @cons number item fate items fates hfate _ ih =>
    cases ho with
    | @cons _ _ other _ others hother hothers =>
      rw [List.forall_mem_cons] at hd hd'
      rw [← List.singleton_append, ← List.singleton_append (x := other), Fate.ids_append,
        Fate.ids_append] at hr
      obtain rfl : other = fate.rename ρ := hfate.renamed hother hd.1 hd'.1 hr.left
      -- The call of the item has a number under either name, so the next numbers agree.
      have hnumber : (Fate.calls [fate.rename ρ]).length = (Fate.calls [fate]).length := by
        simpa using congrArg List.length (Fate.calls_rename (ρ := ρ) [fate])
      have hlength : (Fate.ids [fate.rename ρ]).length = (Fate.ids [fate]).length := by
        simpa using congrArg List.length (Fate.ids_rename (ρ := ρ) [fate])
      rw [hnumber] at hothers
      rw [List.map_cons, ih hothers hd.2 hd'.2 (hr.right hlength)]

theorem getElem?_ids_rename (outcomes : List Outcome) (place : Nat) :
    (ids (outcomes.map (Outcome.rename ρ)))[place]?.join = (ids outcomes)[place]?.join.map ρ := by
  simp only [ids, List.getElem?_toArray, List.getElem?_map]
  cases outcomes[place]? with
  | none => rfl
  | some outcome => cases outcome <;> rfl

/-- A stage asks for the same items under the names that the stage before it has left. -/
theorem requests_rename (hp : job.options.parent = none) (done : List (List Outcome)) :
    job.requests (done.map (List.map (Outcome.rename ρ))) =
      (job.requests done).map (Option.map (·.rename ρ)) := by
  match done with
  | [] =>
    simp only [List.map_nil, Job.requests, frameRequests, List.map_map]
    rfl
  | [frames] =>
    simp only [List.map_cons, List.map_nil, Job.requests, boxRequests, List.map_map]
    refine List.map_congr_left fun item _ => ?_
    simp only [Function.comp_apply, Option.map_some, Request.rename, hp]
    cases item.parent with
    | none => rfl
    | some place => simp only [getElem?_ids_rename, BoxItem.inside]
  | [frames, boxes] =>
    simp only [List.map_cons, List.map_nil, Job.requests, lineRequests, List.map_map]
    refine List.map_congr_left fun item _ => ?_
    simp only [Function.comp_apply, getElem?_ids_rename]
    cases (ids boxes)[item.source]?.join with
    | none => rfl
    | some source => cases (ids boxes)[item.target]?.join <;> rfl
  | _ :: _ :: _ :: _ => rfl

/-- Two runs of one job through as many stages are the same up to the ids that they were given. -/
theorem Fared.renamed [Coordinate α] (hp : job.options.parent = none)
    {done others : List (List Outcome)} {all told : List (Fate α)} (h : Fared job done all)
    (ho : Fared job others told) (hl : others.length = done.length)
    (hd : ∀ fate ∈ all, fate.Decided) (hd' : ∀ fate ∈ told, fate.Decided)
    (hr : Renames ρ (Fate.ids all) (Fate.ids told)) :
    others = done.map (List.map (Outcome.rename ρ)) ∧ told = all.map (·.rename ρ) := by
  induction h generalizing others told with
  | nil =>
    obtain rfl : others = [] := List.length_eq_zero_iff.1 hl
    exact ⟨rfl, ho.eq_nil⟩
  | @stage done past fates _ hs ih =>
    rcases List.eq_nil_or_concat' others with rfl | ⟨earlier, outcomes, rfl⟩
    · simp at hl
    obtain ⟨before, more, rfl, hbefore, rfl, hmore⟩ := ho.last
    rw [List.length_append, List.length_append] at hl
    rw [List.forall_mem_append] at hd hd'
    rw [Fate.ids_append, Fate.ids_append] at hr
    obtain ⟨rfl, rfl⟩ := ih hbefore (Nat.add_right_cancel hl) hd.1 hd'.1 hr.left
    -- The stage starts with the same number and asks for the same items under other names.
    rw [requests_rename hp, List.zipIdx_map, Fate.calls_rename, List.length_map] at hmore
    have hlength : (Fate.ids (past.map (Fate.rename ρ))).length = (Fate.ids past).length := by
      rw [Fate.ids_rename, List.length_map]
    obtain rfl := hs.renamed hmore hd.2 hd'.2 (hr.right hlength)
    simp [Fate.outcome_rename, Function.comp_def]

end Run
end Chartboard
