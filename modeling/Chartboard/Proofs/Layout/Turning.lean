import Chartboard.Layout.Basic

namespace Chartboard

variable {α : Type}

/-- A rectangle with its axes exchanged. -/
def Rect.turned (r : Rect α) : Rect α :=
  ⟨r.y, r.x, r.height, r.width⟩

def Metrics.turned (m : Metrics α) : Metrics α :=
  ⟨m.startY, m.startX, m.nodeHeight, m.nodeWidth, m.spacingY, m.spacingX⟩

/-- The same nodes, edges and groups in another direction. -/
def FlowGraph.facing (direction : Direction) (graph : FlowGraph) : FlowGraph :=
  { graph with direction }

variable [Coordinate α]

theorem Rect.join_turned (r s : Rect α) : r.turned.join s.turned = (r.join s).turned :=
  rfl

theorem Layered.Cell.rect_across (m : Metrics α) (widest : Nat) (cell : Cell) :
    cell.rect m .leftToRight widest = (cell.rect m.turned .topToBottom widest).turned :=
  rfl

/-- Depths come from the edges, whatever the direction. -/
theorem FlowGraph.depths_facing (direction : Direction) (graph : FlowGraph) :
    (graph.facing direction).depths = graph.depths :=
  rfl

theorem FlowGraph.nodes_across (m : Metrics α) (graph : FlowGraph) :
    ((graph.facing .leftToRight).layout m).nodes =
      ((graph.facing .topToBottom).layout m.turned).nodes.map Rect.turned := by
  simp only [layout, Layout.within, depths_facing, List.map_map]
  exact List.map_congr_left fun cell _ => cell.rect_across m _

/-- A flowchart grows across as it grows down in measures with exchanged axes: each node stands and
reaches as far along one axis as it does there along the other one, and so does the whole. -/
theorem growing_across_turns_growing_down (m : Metrics α) (graph : FlowGraph) :
    let across := (graph.facing .leftToRight).layout m
    let down := (graph.facing .topToBottom).layout m.turned
    across.nodes = down.nodes.map Rect.turned ∧
      across.width = down.height ∧ across.height = down.width := by
  intro across down
  have hnodes : across.nodes = down.nodes.map Rect.turned := graph.nodes_across m
  have hunion : Rect.union across.nodes = (Rect.union down.nodes).map Rect.turned := by
    rw [hnodes, Rect.union_map Rect.join_turned]
  refine ⟨hnodes, ?_, ?_⟩
  · change ((Rect.union across.nodes).map Rect.width).getD (0 : Nat) =
      ((Rect.union down.nodes).map Rect.height).getD (0 : Nat)
    rw [hunion, Option.map_map]
    rfl
  · change ((Rect.union across.nodes).map Rect.height).getD (0 : Nat) =
      ((Rect.union down.nodes).map Rect.width).getD (0 : Nat)
    rw [hunion, Option.map_map]
    rfl

end Chartboard
