import Chartboard.Proofs.Layout.Distance

namespace Chartboard.Checked
open Depth

/-- Changes the value at a place, which there has to be. -/
def modify? {β : Type} (l : List β) (place : Nat) (f : β → β) : Option (List β) := do
  let b ← l[place]?
  return l.set place (f b)

/-- The depths that have been found, and the nodes from which to go on. -/
structure Search where
  found : List (Option Nat)
  queue : List Nat

def visit (depth : Nat) (state : Search) (node : Nat) : Option Search := do
  match ← state.found[node]? with
  | some _ => return state
  | none => return ⟨← modify? state.found node fun _ => some depth, state.queue ++ [node]⟩

def search (outgoing : List (List Nat)) (found : List (Option Nat)) (queue : List Nat) :
    Option (List (Option Nat)) := do
  match queue with
  | [] => return found
  | node :: queue =>
    let depth := (← found[node]?).getD 0
    let state ← (← outgoing[node]?).foldlM (visit (depth + 1)) ⟨found, queue⟩
    -- A call written as a term would leave its place in the file in the fixpoint.
    by apply search; exacts [outgoing, state.found, state.queue]
partial_fixpoint

/-- The ends of the links from each node. -/
def outgoing (count : Nat) (links : List (Nat × Nat)) : Option (List (List Nat)) :=
  links.foldlM (fun out link => modify? out link.1 (· ++ [link.2])) (List.replicate count [])

def entered (count : Nat) (links : List (Nat × Nat)) : Option (List Bool) :=
  links.foldlM (fun marks link => modify? marks link.2 fun _ => true) (List.replicate count false)

def unmarked (marks : List Bool) : List Nat :=
  (marks.zipIdx.filter (!·.1)).map (·.2)

def depths (graph : FlowGraph) : Option (List Nat) := do
  let count := graph.nodes.length
  let out ← outgoing count graph.links
  let roots := unmarked (← entered count graph.links)
  let found ← roots.foldlM (fun found root => modify? found root fun _ => some 0)
    (List.replicate count none)
  return (← search out found roots).map (·.getD 0)

section Changes
variable {β γ : Type}

/-- Each value is changed by what is meant for its place, and by nothing else. -/
theorem foldlM_modify? (place : γ → Nat) (change : γ → β → β) (items : List γ) (l : List β)
    (h : ∀ c ∈ items, place c < l.length) :
    items.foldlM (fun l c => modify? l (place c) (change c)) l = some (l.mapIdx fun i b =>
      items.foldl (fun b c => if place c = i then change c b else b) b) := by
  induction items generalizing l with
  | nil =>
    have hid : l.mapIdx (fun _ b => b) = l := by
      refine List.ext_getElem? fun i => ?_
      rw [List.getElem?_mapIdx, Option.map_id_fun', id]
    rw [List.foldlM_nil]
    exact congrArg some hid.symm
  | cons c items ih =>
    obtain ⟨hc, hrest⟩ := List.forall_mem_cons.1 h
    have hlen : (l.set (place c) (change c l[place c])).length = l.length := List.length_set
    rw [List.foldlM_cons, modify?, List.getElem?_eq_getElem hc]
    simp only [Option.bind_eq_bind, Option.bind_some, Option.pure_def]
    rw [ih _ fun c hm => hlen ▸ hrest c hm]
    refine congrArg some (List.ext_getElem? fun i => ?_)
    rw [List.getElem?_mapIdx, List.getElem?_mapIdx, List.getElem?_set]
    by_cases hi : place c = i
    · subst hi
      simp [hc]
    · simp [hi]

theorem foldlM_modify?_replicate (place : γ → Nat) (change : γ → β → β) {items : List γ}
    {count : Nat} (b : β) (h : ∀ c ∈ items, place c < count) :
    items.foldlM (fun l c => modify? l (place c) (change c)) (List.replicate count b) =
      some ((List.range count).map fun i =>
        items.foldl (fun b c => if place c = i then change c b else b) b) := by
  rw [foldlM_modify? place change items _ (by simpa using h)]
  refine congrArg some (List.ext_getElem (by simp) fun i _ _ => ?_)
  simp

theorem foldl_push (p : γ → Prop) [DecidablePred p] (f : γ → β) (items : List γ) (l : List β) :
    items.foldl (fun l c => if p c then l ++ [f c] else l) l = l ++ (items.filter p).map f := by
  induction items generalizing l with
  | nil => simp
  | cons c items ih =>
    rw [List.foldl_cons, ih]
    by_cases hc : p c <;> simp [hc]

/-- If all that is meant for a place is one value, that value stands there in the end. -/
theorem foldl_agree {place : γ → Nat} {value : γ → β} {items : List γ} {i : Nat} {x : β}
    (h : ∀ c ∈ items, place c = i → value c = x) (b : β) :
    items.foldl (fun b c => if place c = i then value c else b) b =
      if i ∈ items.map place then x else b := by
  induction items generalizing b with
  | nil => rfl
  | cons c items ih =>
    obtain ⟨hc, hrest⟩ := List.forall_mem_cons.1 h
    rw [List.foldl_cons, ih hrest]
    by_cases hi : place c = i
    · simp [hi, hc hi]
    · simp [hi, Ne.symm hi]

/-- What has been found is known by its places and what is found there. -/
theorem ext_found {l m : List (Option β)} (hlen : l.length = m.length)
    (h : ∀ (i : Nat) (b : β), l[i]? = some (some b) ↔ m[i]? = some (some b)) : l = m := by
  refine List.ext_getElem hlen fun i hl hm => Option.ext fun b => ?_
  have hi := h i b
  rwa [List.getElem?_eq_getElem hl, List.getElem?_eq_getElem hm, Option.some.injEq,
    Option.some.injEq] at hi

end Changes

/-- The ends of the links from one node. -/
def neighbors (links : List (Nat × Nat)) (u : Nat) : List Nat :=
  (links.filter (·.1 = u)).map (·.2)

variable {count depth u v : Nat} {links : List (Nat × Nat)} {found after : List (Option Nat)}

theorem mem_neighbors : v ∈ neighbors links u ↔ (u, v) ∈ links := by
  simp [neighbors]

theorem outgoing_eq (h : ∀ link ∈ links, link.1 < count) :
    outgoing count links = some ((List.range count).map (neighbors links)) := by
  rw [outgoing, foldlM_modify?_replicate Prod.fst _ _ h]
  refine congrArg some (List.map_congr_left fun u _ => ?_)
  rw [foldl_push (fun link : Nat × Nat => link.1 = u), List.nil_append, neighbors]

theorem entered_eq (h : ∀ link ∈ links, link.2 < count) :
    entered count links = some ((List.range count).map fun v => decide (v ∈ links.map (·.2))) := by
  rw [entered, foldlM_modify?_replicate Prod.snd _ _ h]
  refine congrArg some (List.map_congr_left fun v _ => ?_)
  have hmark : links.foldl (fun b link => if link.2 = v then true else b) false =
      if v ∈ links.map (·.2) then true else false := foldl_agree (fun _ _ _ => rfl) false
  rw [hmark]
  simp

/-- Some nodes have been given a depth so far as they had none, and are listed. -/
structure Finds (depth : Nat) (nodes : List Nat) (found after : List (Option Nat))
    (fresh : List Nat) : Prop where
  length : after.length = found.length
  exact : ∀ v, after[v]? = found[v]?.map fun d => if v ∈ nodes then d.or (some depth) else d
  fresh : ∀ v, v ∈ fresh ↔ found[v]? = some none ∧ v ∈ nodes

theorem Finds.nil (depth : Nat) (found : List (Option Nat)) : Finds depth [] found found [] :=
  ⟨rfl, by simp, by simp⟩

theorem Finds.append {nodes more first second : List Nat} {last : List (Option Nat)}
    (hf : Finds depth nodes found after first) (hs : Finds depth more after last second) :
    Finds depth (nodes ++ more) found last (first ++ second) where
  length := hs.length.trans hf.length
  exact v := by
    rw [hs.exact, hf.exact, Option.map_map]
    refine congrArg (Option.map · _) (funext fun d => ?_)
    by_cases hn : v ∈ nodes <;> by_cases hm : v ∈ more <;> cases d <;> simp [hn, hm]
  fresh v := by
    rw [List.mem_append, hf.fresh, hs.fresh, hf.exact, List.mem_append]
    rcases found[v]? with _ | _ | d <;> by_cases hn : v ∈ nodes <;> simp [hn]

theorem Finds.exact_some {nodes fresh : List Nat} (h : Finds depth nodes found after fresh)
    (v d : Nat) : after[v]? = some (some d) ↔
      found[v]? = some (some d) ∨ found[v]? = some none ∧ d = depth ∧ v ∈ nodes := by
  rw [h.exact]
  rcases found[v]? with _ | _ | e <;> by_cases hn : v ∈ nodes <;> simp [hn, eq_comm]

/-- A node that is visited puts itself into the queue only if it had no depth. -/
theorem exists_visit (depth : Nat) {node : Nat} (h : node < found.length) :
    ∃ after fresh, (∀ queue, visit depth ⟨found, queue⟩ node = some ⟨after, queue ++ fresh⟩) ∧
      Finds depth [node] found after fresh := by
  cases hf : found[node] with
  | some d =>
    have hfound : found[node]? = some (some d) := hf ▸ List.getElem?_eq_getElem h
    refine ⟨found, [], fun queue => by simp [visit, hfound], rfl, fun v => ?_, fun v => ?_⟩
    · by_cases hv : v = node
      · simp [hv, hfound]
      · simp [hv]
    · by_cases hv : v = node <;> simp [hv, hfound]
  | none =>
    have hfound : found[node]? = some none := hf ▸ List.getElem?_eq_getElem h
    refine ⟨found.set node (some depth), [node], fun queue => ?_, List.length_set, fun v => ?_,
      fun v => ?_⟩
    · simp [visit, modify?, hfound]
    · by_cases hv : v = node
      · subst hv
        rw [List.getElem?_set_self h, hfound]
        simp
      · simp [hv, List.getElem?_set_ne (Ne.symm hv)]
    · by_cases hv : v = node <;> simp [hv, hfound]

theorem exists_visits (depth : Nat) {nodes : List Nat} (h : ∀ v ∈ nodes, v < found.length) :
    ∃ after fresh, (∀ queue, nodes.foldlM (visit depth) ⟨found, queue⟩ =
      some ⟨after, queue ++ fresh⟩) ∧ Finds depth nodes found after fresh := by
  induction nodes generalizing found with
  | nil => exact ⟨found, [], by simp, .nil depth found⟩
  | cons node nodes ih =>
    obtain ⟨hnode, hrest⟩ := List.forall_mem_cons.1 h
    obtain ⟨between, first, hvisit, hfirst⟩ := exists_visit depth hnode
    obtain ⟨after, second, hvisits, hsecond⟩ := ih (hfirst.length ▸ hrest)
    refine ⟨after, first ++ second, fun queue => ?_, hfirst.append hsecond⟩
    rw [List.foldlM_cons, hvisit, ← List.append_assoc]
    exact hvisits (queue ++ first)

/-- The nodes at one depth find those at the next one, which wait behind them. -/
theorem search_level {out : List (List Nat)} {level : List Nat} (behind : List Nat)
    (hout : ∀ u < found.length, out[u]? = some (neighbors links u))
    (hlinks : ∀ link ∈ links, link.2 < found.length)
    (hlevel : ∀ u ∈ level, found[u]? = some (some depth)) :
    ∃ after fresh, Finds (depth + 1) (level.flatMap (neighbors links)) found after fresh ∧
      search out found (level ++ behind) = search out after (behind ++ fresh) := by
  induction level generalizing found behind with
  | nil => exact ⟨found, [], .nil _ found, by simp⟩
  | cons u level ih =>
    obtain ⟨hu, hrest⟩ := List.forall_mem_cons.1 hlevel
    have hlt := (List.getElem?_eq_some_iff.1 hu).1
    obtain ⟨between, first, hvisit, hfirst⟩ := exists_visits (depth + 1) fun v hv =>
      hlinks (u, v) (mem_neighbors.1 hv)
    obtain ⟨after, second, hsecond, hsearch⟩ := ih (behind ++ first)
      (hfirst.length ▸ hout) (hfirst.length ▸ hlinks)
      fun u hu => (hfirst.exact_some u depth).2 (.inl (hrest u hu))
    refine ⟨after, first ++ second, hfirst.append hsecond, ?_⟩
    rw [List.cons_append, search]
    simp only [hu, hout u hlt, hvisit, Option.bind_eq_bind, Option.bind_some, Option.getD_some]
    rw [List.append_assoc, hsearch, List.append_assoc]

/-- The search goes from depth to depth, and no depth is as large as the number of nodes. -/
theorem exists_search {out : List (List Nat)} {level : List Nat} {rounds : Nat}
    (hout : ∀ u < count, out[u]? = some (neighbors links u))
    (hl : ∀ link ∈ links, link.2 < count) (h : Explored count links depth found.toArray)
    (hlevel : ∀ v, v ∈ level ↔ IsDistance count links v depth) (hr : depth + rounds = count) :
    ∃ after, search out found level = some after ∧ after.length = count ∧
      ∀ v d, after[v]? = some (some d) ↔ IsDistance count links v d := by
  -- By induction on how many more depths there can be. At the last one the queue is empty, whether
  -- or not some nodes have never been in it.
  induction rounds generalizing depth found level with
  | zero =>
    have hend : ∀ u, ¬ IsDistance count links u depth := fun u hu => by
      have := hu.lt_count hl
      omega
    obtain rfl : level = [] :=
      List.eq_nil_iff_forall_not_mem.2 fun u hu => hend u ((hlevel u).1 hu)
    refine ⟨found, by rw [search]; rfl, h.size, fun v d => ?_⟩
    rw [← h.complete hend, List.getElem?_toArray]
  | succ rounds ih =>
    have hsize : found.length = count := h.size
    have hnear : ∀ u, u ∈ level ↔ found[u]? = some (some depth) := fun u => by
      rw [hlevel, ← List.getElem?_toArray, h.exact, and_iff_left (Nat.le_refl depth)]
    obtain ⟨after, fresh, hfinds, hsearch⟩ := search_level [] (hsize ▸ hout)
      (hsize ▸ hl) fun u hu => (hnear u).1 hu
    have hfrom : ∀ v, v ∈ level.flatMap (neighbors links) ↔
        ∃ u, (u, v) ∈ links ∧ found[u]? = some (some depth) := fun v => by
      simp [mem_neighbors, hnear, and_comm]
    rw [List.append_nil, List.nil_append] at hsearch
    rw [hsearch]
    refine ih (h.succ hl hfinds.length fun v d => ?_) (fun v => ?_) (by omega)
    · simp only [List.getElem?_toArray, hfinds.exact_some, hfrom]
    · have hnone := h.getElem?_none (v := v)
      rw [List.getElem?_toArray] at hnone
      rw [hfinds.fresh, hfrom, hnone, isDistance_succ]
      simp only [← hnear, hlevel]
      refine ⟨fun ⟨⟨_, hnot⟩, hlink⟩ => ⟨hlink, hnot⟩, ?_⟩
      rintro ⟨⟨u, hu, hd⟩, hnot⟩
      exact ⟨⟨hl (u, v) hu, hnot⟩, u, hu, hd⟩

/-- The search starts with the roots at depth zero. -/
theorem exists_start {roots : List Nat} (hr : ∀ v, v ∈ roots ↔ IsRoot count links v) :
    ∃ found, roots.foldlM (fun found root => modify? found root fun _ => some 0)
      (List.replicate count none) = some found ∧ Explored count links 0 found.toArray := by
  have hfound : roots.foldlM (fun found root => modify? found root fun _ => some 0)
      (List.replicate count none) =
        some ((List.range count).map fun v => if v ∈ roots.map id then some 0 else none) := by
    refine (foldlM_modify?_replicate id (fun _ _ => some 0) none fun root hm =>
      ((hr root).1 hm).known).trans ?_
    exact congrArg some (List.map_congr_left fun v _ => foldl_agree (fun _ _ _ => rfl) none)
  refine ⟨_, hfound, by simp, fun v d => ?_⟩
  rw [List.getElem?_toArray, List.getElem?_map, List.map_id, Nat.le_zero]
  constructor
  · intro h
    obtain ⟨u, hu, he⟩ := Option.map_eq_some_iff.1 h
    obtain ⟨_, rfl⟩ := List.getElem?_eq_some_iff.1 hu
    split at he
    · next hroot =>
      cases he
      rw [List.getElem_range] at hroot
      exact ⟨isDistance_zero.2 ((hr v).1 hroot), rfl⟩
    · cases he
  · rintro ⟨hd, rfl⟩
    have hroot := isDistance_zero.1 hd
    rw [List.getElem?_range hroot.known, Option.map_some, if_pos ((hr v).2 hroot)]

theorem mem_unmarked {marks : List Bool} : v ∈ unmarked marks ↔ marks[v]? = some false := by
  simp [unmarked, List.mem_zipIdx_iff_getElem?]

theorem mem_roots : v ∈ unmarked ((List.range count).map fun v => decide (v ∈ links.map (·.2))) ↔
    IsRoot count links v := by
  rw [mem_unmarked, List.getElem?_map]
  constructor
  · intro h
    obtain ⟨u, hu, hfirst⟩ := Option.map_eq_some_iff.1 h
    obtain ⟨hv, rfl⟩ := List.getElem?_eq_some_iff.1 hu
    rw [List.getElem_range, decide_eq_false_iff_not] at hfirst
    exact ⟨by simpa using hv, fun u hl => hfirst (List.mem_map_of_mem hl)⟩
  · rintro ⟨hv, hfirst⟩
    rw [List.getElem?_range hv, Option.map_some, Option.some.injEq, decide_eq_false_iff_not]
    intro hm
    obtain ⟨link, hl, rfl⟩ := List.mem_map.1 hm
    exact hfirst link.1 hl

theorem depths_eq (graph : FlowGraph) : depths graph = some graph.depths := by
  have hends : ∀ link ∈ graph.links,
      link.1 < graph.nodes.length ∧ link.2 < graph.nodes.length := by
    intro link hm
    obtain ⟨edge, -, he⟩ := List.mem_filterMap.1 hm
    exact FlowGraph.ends?_lt he
  have hout : ∀ u < graph.nodes.length, ((List.range graph.nodes.length).map
      (neighbors graph.links))[u]? = some (neighbors graph.links u) := fun u hu => by simp [hu]
  obtain ⟨found, hstart, hexplored⟩ := exists_start fun v => mem_roots
  obtain ⟨after, hsearch, hlen, hexact⟩ := exists_search hout (fun link hm => (hends link hm).2)
    hexplored (fun v => mem_roots.trans isDistance_zero.symm) (Nat.zero_add _)
  obtain ⟨hsize, hall⟩ := (explored_roots _ _).search graph.links_lt (Nat.zero_add _)
  have hafter : after = (Depth.search graph.links graph.nodes.length 0
      (roots graph.nodes.length graph.links)).toList := by
    refine ext_found (hlen.trans hsize.symm) fun v d => ?_
    rw [hexact, ← hall, Array.getElem?_toList]
  simp only [depths, outgoing_eq fun link hm => (hends link hm).1,
    entered_eq fun link hm => (hends link hm).2, hstart, hsearch, hafter, Option.bind_eq_bind,
    Option.bind_some]
  rfl

end Chartboard.Checked
