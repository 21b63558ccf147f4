import Chartboard.Diagram.Vocabulary
import Chartboard.Layout.Rect

namespace Chartboard

/-- Where a layout starts, how large a node is and how far apart its neighbours are. -/
structure Metrics (α : Type) where
  startX : α
  startY : α
  nodeWidth : α
  nodeHeight : α
  spacingX : α
  spacingY : α
deriving DecidableEq

/-- Replacements for single measures. -/
structure Overrides (α : Type) where
  startX : Option α := none
  startY : Option α := none
  nodeWidth : Option α := none
  nodeHeight : Option α := none
  spacingX : Option α := none
  spacingY : Option α := none
deriving DecidableEq

/-- One layer of replacements on top of another, in which the upper one decides where it speaks. -/
def Overrides.under (lower upper : Overrides α) : Overrides α where
  startX := upper.startX <|> lower.startX
  startY := upper.startY <|> lower.startY
  nodeWidth := upper.nodeWidth <|> lower.nodeWidth
  nodeHeight := upper.nodeHeight <|> lower.nodeHeight
  spacingX := upper.spacingX <|> lower.spacingX
  spacingY := upper.spacingY <|> lower.spacingY

namespace Metrics
variable {α : Type} [Coordinate α]

def ofNats (nodeWidth nodeHeight spacingX spacingY : Nat) : Metrics α :=
  ⟨(0 : Nat), (0 : Nat), nodeWidth, nodeHeight, spacingX, spacingY⟩

def flow : Metrics α := ofNats 180 70 80 120

def sequence : Metrics α := ofNats 120 50 60 60

def standard : Family → Metrics α
  | .flow => flow
  | .sequence => sequence

/-- Replaces the measures for which there is a usable value: places are finite, sizes positive as
well, and distances not negative. -/
def adjust (m : Metrics α) (o : Overrides α) : Metrics α :=
  let usable := fun (p : α → Bool) (v : Option α) (default : α) =>
    (v.filter fun v => isFinite v && p v).getD default
  { startX := usable (fun _ => true) o.startX m.startX
    startY := usable (fun _ => true) o.startY m.startY
    nodeWidth := usable isPositive o.nodeWidth m.nodeWidth
    nodeHeight := usable isPositive o.nodeHeight m.nodeHeight
    spacingX := usable isNonnegative o.spacingX m.spacingX
    spacingY := usable isNonnegative o.spacingY m.spacingY }

end Metrics
end Chartboard
