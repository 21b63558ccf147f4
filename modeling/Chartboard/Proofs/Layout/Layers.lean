import Chartboard.Proofs.Layout.Covering
import Chartboard.Proofs.Layout.Distance
import Mathlib.Data.Finset.Lattice.Fold
import Mathlib.Data.Finset.Range
import Mathlib.Order.Lattice.Nat

namespace Chartboard

theorem Layered.count_le_sup (depths : List Nat) (d : Nat) :
    depths.count d ≤ depths.toFinset.sup depths.count := by
  by_cases hd : d ∈ depths
  · exact Finset.le_sup (f := depths.count) (List.mem_toFinset.2 hd)
  · rw [List.count_eq_zero_of_not_mem hd]
    exact Nat.zero_le _

namespace FlowGraph

variable {graph : FlowGraph}

theorem mem_depths_of_le {d e : Nat} (h : d ∈ graph.depths) (he : e ≤ d) : e ∈ graph.depths := by
  induction d, he using Nat.le_induction with
  | base => exact h
  | succ d _ ih => exact ih (mem_depths_of_succ h)

/-- How many layers there are. -/
def layerCount (graph : FlowGraph) : Nat :=
  graph.depths.toFinset.card

/-- How many nodes there are in the largest layer. -/
def widest (graph : FlowGraph) : Nat :=
  graph.depths.toFinset.sup graph.depths.count

/-- The layers are numbered from zero without a gap. -/
theorem mem_depths_iff {d : Nat} : d ∈ graph.depths ↔ d < graph.layerCount := by
  have hsub : graph.depths.toFinset ⊆ Finset.range graph.layerCount := by
    intro d hd
    have hall : Finset.range (d + 1) ⊆ graph.depths.toFinset := by
      intro e he
      rw [Finset.mem_range, Nat.lt_succ_iff] at he
      exact List.mem_toFinset.2 (mem_depths_of_le (List.mem_toFinset.1 hd) he)
    have hcard := Finset.card_le_card hall
    rw [Finset.card_range] at hcard
    exact Finset.mem_range.2 hcard
  have heq := Finset.eq_of_subset_of_card_le hsub (Finset.card_range _).le
  rw [← List.mem_toFinset, heq, Finset.mem_range]

theorem count_le_widest (d : Nat) : graph.depths.count d ≤ graph.widest :=
  Layered.count_le_sup graph.depths d

theorem exists_widest (hne : graph.nodes ≠ []) :
    ∃ d ∈ graph.depths, graph.depths.count d = graph.widest := by
  have hd : graph.depths.toFinset.Nonempty := by
    rw [List.toFinset_nonempty_iff, ← List.length_pos_iff, length_depths]
    exact List.length_pos_iff.2 hne
  obtain ⟨d, hm, he⟩ := Finset.exists_mem_eq_sup _ hd graph.depths.count
  exact ⟨d, List.mem_toFinset.1 hm, he.symm⟩

end FlowGraph

namespace Layered

theorem getElem?_slotsFrom (seen depths : List Nat) (place : Nat) :
    (slotsFrom seen depths)[place]? =
      depths[place]?.map fun d => seen.count d + (depths.take place).count d := by
  induction depths generalizing seen place with
  | nil => rfl
  | cons e depths ih =>
    cases place with
    | zero => rfl
    | succ place =>
      rw [slotsFrom, List.getElem?_cons_succ, List.getElem?_cons_succ, ih, List.take_succ_cons]
      refine congrArg (Option.map · _) (funext fun d => ?_)
      rw [List.count_cons, List.count_cons]
      omega

def cellAt (depths : List Nat) (place d : Nat) : Cell :=
  ⟨d, (depths.take place).count d, depths.count d⟩

theorem getElem?_cells (depths : List Nat) (place : Nat) :
    (cells depths)[place]? = depths[place]?.map (cellAt depths place) := by
  rw [cells, List.getElem?_map, List.zip, List.getElem?_zipWith', getElem?_slotsFrom]
  cases depths[place]? with
  | none => rfl
  | some d => simp [cellAt]

theorem foldl_max_map (f : Nat → Nat) (l : List Nat) (size : Nat) :
    (l.map f).foldl max size = max size (l.toFinset.sup f) := by
  induction l generalizing size with
  | nil => simp
  | cons d l ih =>
    rw [List.map_cons, List.foldl_cons, ih, List.toFinset_cons, Finset.sup_insert, max_assoc]

theorem foldl_layerSize (depths : List Nat) :
    ((cells depths).map (·.layerSize)).foldl max 0 = depths.toFinset.sup depths.count := by
  have hsizes : (cells depths).map (·.layerSize) = depths.map depths.count := by
    refine List.ext_getElem? fun place => ?_
    rw [List.getElem?_map, getElem?_cells, List.getElem?_map, Option.map_map]
    rfl
  rw [hsizes, foldl_max_map, Nat.zero_max]

variable {depths : List Nat} {place other d : Nat}

theorem count_take_succ (h : depths[place]? = some d) :
    (depths.take (place + 1)).count d = (depths.take place).count d + 1 := by
  rw [List.take_add_one, h, List.count_append]
  simp

theorem count_take_lt (h : depths[place]? = some d) :
    (depths.take place).count d < depths.count d := by
  rw [← Nat.succ_le_iff, Nat.succ_eq_add_one, ← count_take_succ h]
  exact (List.take_sublist _ _).count_le d

/-- Of two nodes in a layer the earlier one has the earlier place. -/
theorem count_take_lt_count_take (h : depths[place]? = some d) (hlt : place < other) :
    (depths.take place).count d < (depths.take other).count d := by
  rw [← Nat.succ_le_iff, Nat.succ_eq_add_one, ← count_take_succ h]
  exact (List.take_sublist_take_left hlt).count_le d

/-- Every place in a layer is taken. -/
theorem exists_count_take {slot : Nat} (h : slot < depths.count d) :
    ∃ place, depths[place]? = some d ∧ (depths.take place).count d = slot := by
  induction depths generalizing slot with
  | nil => simp at h
  | cons e depths ih =>
    by_cases he : e = d
    · subst he
      cases slot with
      | zero => exact ⟨0, rfl, rfl⟩
      | succ slot =>
        rw [List.count_cons_self, Nat.add_lt_add_iff_right] at h
        obtain ⟨place, hp, hc⟩ := ih h
        exact ⟨place + 1, hp, by rw [List.take_succ_cons, List.count_cons_self, hc]⟩
    · rw [List.count_cons_of_ne he] at h
      obtain ⟨place, hp, hc⟩ := ih h
      exact ⟨place + 1, hp, by rw [List.take_succ_cons, List.count_cons_of_ne he, hc]⟩

end Layered

theorem FlowGraph.getElem?_nodes_layout {α : Type} [Coordinate α] (m : Metrics α)
    (graph : FlowGraph) (place : Nat) :
    (graph.layout m).nodes[place]? = graph.depths[place]?.map fun d =>
      (Layered.cellAt graph.depths place d).rect m graph.direction graph.widest := by
  rw [layout, Layout.within, List.getElem?_map, Layered.foldl_layerSize, Layered.getElem?_cells,
    Option.map_map]
  rfl

end Chartboard
