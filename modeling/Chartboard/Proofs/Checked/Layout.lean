import Chartboard.Proofs.Checked.Depth
import Chartboard.Proofs.Layout.Layers
import Chartboard.Proofs.Text.Bytes

namespace Chartboard.Checked
open Chartboard.Text Layered

/-- One more than the greatest depth. -/
def layerCount (depths : List Nat) : Nat :=
  depths.max?.elim 0 (· + 1)

/-- The nodes at each depth. -/
def layers (depths : List Nat) : Option (List (List Nat)) :=
  depths.zipIdx.foldlM (fun layers (depth, node) => modify? layers depth (· ++ [node]))
    (List.replicate (layerCount depths) [])

variable {α : Type} [Coordinate α]

/-- The rectangle at a place in a layer that has some nodes fewer than the widest one. -/
def spot (m : Metrics α) (direction : Direction) (fewer depth slot : Nat) : Rect α :=
  let stepX := m.nodeWidth + m.spacingX
  let stepY := m.nodeHeight + m.spacingY
  let (dx, dy) := match direction with
    | .topToBottom => (half (fewer * stepX) + slot * stepX, depth * stepY)
    | .leftToRight => (depth * stepX, half (fewer * stepY) + slot * stepY)
  ⟨m.startX + dx, m.startY + dy, m.nodeWidth, m.nodeHeight⟩

def spots (m : Metrics α) (direction : Direction) (widest : Nat) (layer : List Nat) (depth : Nat) :
    Option (List (Nat × Rect α)) := do
  let fewer ← minus? widest layer.length
  return layer.zipIdx.map fun (node, slot) => (node, spot m direction fewer depth slot)

def rects (m : Metrics α) (graph : FlowGraph) : Option (List (Rect α)) := do
  let layers ← layers (← depths graph)
  let widest := (layers.map List.length).foldl max 0
  let spots ← layers.zipIdx.mapM fun (layer, depth) => spots m graph.direction widest layer depth
  let nowhere : Rect α := ⟨(0 : Nat), (0 : Nat), (0 : Nat), (0 : Nat)⟩
  spots.flatten.foldlM (fun rects (node, rect) => modify? rects node fun _ => rect)
    (List.replicate graph.nodes.length nowhere)

def frame? (graph : FlowGraph) (nodes : List (Rect α)) (group : Group) :
    Option (Option (Frame α)) := do
  let members := group.members.filterMap graph.position?
  let inner ← members.mapM (nodes[·]?)
  return (Rect.union inner).map fun inner =>
    { title := group.title
      rect := {
        x := inner.x - framePadding
        y := inner.y - framePadding - frameTitle
        width := inner.width + (2 : Nat) * framePadding
        height := inner.height + (2 : Nat) * framePadding + frameTitle }
      members }

/-- A sequence diagram is laid out without reading at any place. -/
def layout (m : Metrics α) : Diagram → Option (Layout α)
  | .flow graph => do
    let nodes ← rects m graph
    let frames ← graph.groups.mapM (frame? graph nodes)
    return .within (Rect.union nodes) nodes (frames.filterMap id) []
  | .sequence diagram => some (diagram.layout m)

theorem foldl_layers (d start : Nat) (depths layer : List Nat) :
    (depths.zipIdx start).foldl (fun layer c => if c.1 = d then layer ++ [c.2] else layer) layer =
      layer ++ depths.idxsOf d start := by
  induction depths generalizing start layer with
  | nil => simp
  | cons e depths ih =>
    rw [List.zipIdx_cons, List.foldl_cons, ih, List.idxsOf_cons]
    by_cases he : e = d <;> simp [he]

theorem lt_layerCount {depths : List Nat} {d : Nat} (h : d ∈ depths) :
    d < layerCount depths := by
  unfold layerCount
  cases hm : depths.max? with
  | none =>
    rw [List.max?_eq_none_iff.1 hm] at h
    cases h
  | some top => exact Nat.lt_succ_of_le ((List.max?_eq_some_iff.1 hm).2 d h)

theorem layers_eq (depths : List Nat) :
    layers depths = some ((List.range (layerCount depths)).map depths.idxsOf) := by
  rw [layers, foldlM_modify?_replicate Prod.fst _ _ fun c hc =>
    lt_layerCount (List.fst_mem_of_mem_zipIdx hc)]
  exact congrArg some (List.map_congr_left fun d _ => foldl_layers d 0 depths [])

/-- The nodes of a depth are known by how many of its nodes are before them. -/
theorem getElem?_idxsOf {depths : List Nat} {d slot node : Nat}
    (h : (depths.idxsOf d)[slot]? = some node) :
    depths[node]? = some d ∧ (depths.take node).count d = slot := by
  obtain ⟨hslot, rfl⟩ := List.getElem?_eq_some_iff.1 h
  have hcount : slot < depths.count d := by rwa [List.length_idxsOf] at hslot
  refine ⟨?_, ?_⟩
  · rw [List.getElem?_eq_getElem (by simpa using List.getElem_idxsOf_lt hslot)]
    exact congrArg some (List.getElem_getElem_idxsOf_of_lawful hslot)
  · rw [List.getElem_idxOf_eq_idxOfNth, ← List.countBefore_eq_count_take]
    exact List.countBefore_idxOfNth_of_lt_count hcount

theorem mem_idxsOf {depths : List Nat} {d node : Nat} (h : depths[node]? = some d) :
    node ∈ depths.idxsOf d := by
  obtain ⟨hlt, rfl⟩ := List.getElem?_eq_some_iff.1 h
  exact List.mem_idxsOf_getElem hlt

theorem foldl_length_layers (depths : List Nat) :
    (((List.range (layerCount depths)).map depths.idxsOf).map List.length).foldl max 0 =
      depths.toFinset.sup depths.count := by
  have hlengths : ((List.range (layerCount depths)).map depths.idxsOf).map List.length =
      (List.range (layerCount depths)).map depths.count := by
    simp [Function.comp_def]
  rw [hlengths, foldl_max_map, Nat.zero_max]
  refine le_antisymm (Finset.sup_le fun d _ => count_le_sup depths d) ?_
  refine Finset.sup_le fun d hd => ?_
  refine Finset.le_sup (f := depths.count) (List.mem_toFinset.2 (List.mem_range.2 ?_))
  exact lt_layerCount (List.mem_toFinset.1 hd)

theorem mapM_eq_map {β γ : Type} {f : β → Option γ} {g : β → γ} {l : List β}
    (h : ∀ b ∈ l, f b = some (g b)) : l.mapM f = some (l.map g) := by
  induction l with
  | nil => rfl
  | cons b l ih =>
    obtain ⟨hb, hrest⟩ := List.forall_mem_cons.1 h
    rw [List.mapM_cons, hb, ih hrest]
    rfl

theorem spot_eq_rect (m : Metrics α) (direction : Direction) (widest : Nat) (cell : Cell) :
    spot m direction (widest - cell.layerSize) cell.depth cell.slot =
      cell.rect m direction widest := by
  cases direction <;> rfl

/-- What is meant for a node is the rectangle of its cell. -/
theorem spots_eq {depths : List Nat} {widest d : Nat} (m : Metrics α) (direction : Direction)
    (h : depths.count d ≤ widest) : spots m direction widest (depths.idxsOf d) d =
      some ((depths.idxsOf d).map fun node => (node, (cellAt depths node d).rect m direction widest)) := by
  have hminus : minus? widest (depths.idxsOf d).length = some (widest - depths.count d) := by
    rw [List.length_idxsOf, minus?, if_pos h]
  rw [spots, hminus]
  refine congrArg some (List.ext_getElem? fun slot => ?_)
  rw [List.getElem?_map, List.getElem?_zipIdx, List.getElem?_map, Option.map_map]
  cases hs : (depths.idxsOf d)[slot]? with
  | none => rfl
  | some node =>
    obtain ⟨-, hcount⟩ := getElem?_idxsOf hs
    simp [← spot_eq_rect, cellAt, hcount]

/-- If what is written agrees with a list and leaves out none of its places, the list results. -/
theorem foldlM_covering {β : Type} {target : List β} {writes : List (Nat × β)} (b : β)
    (h : ∀ w ∈ writes, target[w.1]? = some w.2)
    (hcover : ∀ i < target.length, i ∈ writes.map (·.1)) :
    writes.foldlM (fun l (i, b) => modify? l i fun _ => b) (List.replicate target.length b) =
      some target := by
  rw [foldlM_modify?_replicate Prod.fst (fun w _ => w.2) b fun w hw =>
    (List.getElem?_eq_some_iff.1 (h w hw)).1]
  refine congrArg some (List.ext_getElem (by simp) fun i _ hi => ?_)
  have hagree : ∀ w ∈ writes, w.1 = i → w.2 = target[i] := by
    rintro w hw rfl
    exact (List.getElem_eq_iff hi).2 (h w hw) |>.symm
  rw [List.getElem_map, List.getElem_range, foldl_agree hagree, if_pos (hcover i hi)]

theorem zipIdx_map_range {β : Type} (f : Nat → β) (count : Nat) :
    ((List.range count).map f).zipIdx = (List.range count).map fun i => (f i, i) := by
  refine List.ext_getElem (by simp) fun i _ _ => ?_
  simp

theorem rects_eq (m : Metrics α) (graph : FlowGraph) :
    rects m graph = some (graph.layout m).nodes := by
  let put := fun d node =>
    (node, (cellAt graph.depths node d).rect m graph.direction graph.widest)
  have hwidest : (((List.range (layerCount graph.depths)).map fun d =>
      graph.depths.idxsOf d).map List.length).foldl max 0 = graph.widest :=
    foldl_length_layers graph.depths
  have hspots : ((List.range (layerCount graph.depths)).mapM fun d =>
      spots m graph.direction graph.widest (graph.depths.idxsOf d) d) =
        some ((List.range (layerCount graph.depths)).map fun d =>
          (graph.depths.idxsOf d).map (put d)) :=
    mapM_eq_map fun d _ => spots_eq m graph.direction (FlowGraph.count_le_widest d)
  have hnode : ∀ {node d}, graph.depths[node]? = some d →
      (graph.layout m).nodes[node]? = some (put d node).2 := by
    intro node d h
    rw [FlowGraph.getElem?_nodes_layout, h]
    rfl
  simp only [rects, depths_eq, layers_eq, hwidest, zipIdx_map_range, List.mapM_map,
    Function.comp_def, hspots, Option.bind_eq_bind, Option.bind_some]
  rw [← graph.length_nodes_layout m]
  refine foldlM_covering _ ?_ ?_
  · intro w hw
    obtain ⟨_, hd, hw⟩ := List.mem_flatten.1 hw
    obtain ⟨d, -, rfl⟩ := List.mem_map.1 hd
    obtain ⟨node, hn, rfl⟩ := List.mem_map.1 hw
    obtain ⟨slot, hslot⟩ := List.mem_iff_getElem?.1 hn
    exact hnode (getElem?_idxsOf hslot).1
  · intro node hlt
    rw [graph.length_nodes_layout, ← graph.length_depths] at hlt
    have hd : graph.depths[node]? = some graph.depths[node] := List.getElem?_eq_getElem hlt
    refine List.mem_map.2 ⟨put graph.depths[node] node, List.mem_flatten.2 ⟨_, List.mem_map.2
      ⟨graph.depths[node], List.mem_range.2 ?_, rfl⟩, List.mem_map_of_mem (mem_idxsOf hd)⟩, rfl⟩
    exact lt_layerCount (List.getElem_mem hlt)

/-- Reading at places that there are leaves none of them out. -/
theorem mapM_getElem? {β : Type} {l : List β} {places : List Nat}
    (h : ∀ i ∈ places, i < l.length) : places.mapM (l[·]?) = some (places.filterMap (l[·]?)) := by
  induction places with
  | nil => rfl
  | cons i places ih =>
    obtain ⟨hi, hrest⟩ := List.forall_mem_cons.1 h
    rw [List.mapM_cons, ih hrest, List.filterMap_cons, List.getElem?_eq_getElem hi]
    rfl

theorem frame?_eq (graph : FlowGraph) {nodes : List (Rect α)}
    (h : nodes.length = graph.nodes.length) (group : Group) :
    frame? graph nodes group = some (group.frame? graph nodes) := by
  have hlt : ∀ member ∈ group.members.filterMap graph.position?, member < nodes.length := by
    intro member hm
    obtain ⟨id, -, hp⟩ := List.mem_filterMap.1 hm
    exact h ▸ FlowGraph.position?_lt hp
  simp only [frame?, mapM_getElem? hlt, Option.bind_eq_bind, Option.bind_some]
  rfl

theorem layout_eq (m : Metrics α) (diagram : Diagram) :
    layout m diagram = some (diagram.layout m) := by
  cases diagram with
  | sequence diagram => rfl
  | flow graph =>
    have hframes := mapM_eq_map fun group (_ : group ∈ graph.groups) =>
      frame?_eq graph (graph.length_nodes_layout m) group
    simp only [layout, rects_eq, hframes, Option.bind_eq_bind, Option.bind_some]
    rw [List.filterMap_map, Function.id_comp]
    rfl

end Chartboard.Checked
