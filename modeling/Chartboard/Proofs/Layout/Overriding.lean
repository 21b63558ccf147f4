import Chartboard.Layout.Metrics

namespace Chartboard

variable {α β : Type}

inductive Measure where
  | startX
  | startY
  | nodeWidth
  | nodeHeight
  | spacingX
  | spacingY
deriving DecidableEq

namespace Measure

def of (metrics : Metrics α) : Measure → α
  | startX => metrics.startX
  | startY => metrics.startY
  | nodeWidth => metrics.nodeWidth
  | nodeHeight => metrics.nodeHeight
  | spacingX => metrics.spacingX
  | spacingY => metrics.spacingY

def set? (layer : Overrides α) : Measure → Option α
  | startX => layer.startX
  | startY => layer.startY
  | nodeWidth => layer.nodeWidth
  | nodeHeight => layer.nodeHeight
  | spacingX => layer.spacingX
  | spacingY => layer.spacingY

/-- Places are finite, sizes are finite and positive, and distances finite and not negative. -/
def isUsable [Coordinate α] (value : α) : Measure → Bool
  | startX | startY => isFinite value
  | nodeWidth | nodeHeight => isFinite value && isPositive value
  | spacingX | spacingY => isFinite value && isNonnegative value

def usable? [Coordinate α] (layer : Overrides α) (measure : Measure) : Option α :=
  (measure.set? layer).filter measure.isUsable

end Measure

/-- What the last of the layers that say something says. -/
def lastSaid? (say? : β → Option α) (layers : List β) : Option α :=
  layers.reverse.findSome? say?

theorem lastSaid?_cons (say? : β → Option α) (layer : β) (layers : List β) :
    lastSaid? say? (layer :: layers) = (lastSaid? say? layers).or (say? layer) := by
  rw [lastSaid?, List.reverse_cons, List.findSome?_append, List.findSome?_singleton, lastSaid?]

/-- What is said last is also what is said last of all that satisfies `p`, if it does so itself. -/
theorem lastSaid?_filter {say? : β → Option α} {p : α → Bool} {layers : List β} {v : α}
    (h : lastSaid? say? layers = some v) (hp : p v = true) :
    lastSaid? (fun layer => (say? layer).filter p) layers = some v := by
  obtain ⟨later, layer, earlier, he, hs, hn⟩ := List.findSome?_eq_some_iff.1 h
  refine List.findSome?_eq_some_iff.2 ⟨later, layer, earlier, he, ?_, ?_⟩
  · rw [hs, Option.filter_some_pos hp]
  · intro other ho
    rw [hn other ho, Option.filter_none]

theorem lastSaid?_filter_eq_none {say? : β → Option α} (p : α → Bool) {layers : List β}
    (h : lastSaid? say? layers = none) :
    lastSaid? (fun layer => (say? layer).filter p) layers = none := by
  rw [lastSaid?, List.findSome?_eq_none_iff] at h ⊢
  intro layer hl
  rw [h layer hl, Option.filter_none]

namespace Metrics

theorem eq_of_measures {m n : Metrics α} (h : ∀ measure : Measure, measure.of m = measure.of n) :
    m = n := by
  obtain ⟨⟩ := m
  obtain ⟨⟩ := n
  simp only [Metrics.mk.injEq]
  exact ⟨h .startX, h .startY, h .nodeWidth, h .nodeHeight, h .spacingX, h .spacingY⟩

theorem of_adjust [Coordinate α] (m : Metrics α) (layer : Overrides α) (measure : Measure) :
    measure.of (m.adjust layer) = (measure.usable? layer).getD (measure.of m) := by
  cases measure <;> simp [Measure.of, Measure.usable?, Measure.set?, adjust, Measure.isUsable]

/-- Layers that are applied in turn give the last value that is of use. -/
theorem of_foldl_adjust [Coordinate α] (m : Metrics α) (layers : List (Overrides α))
    (measure : Measure) : measure.of (layers.foldl adjust m) =
      (lastSaid? measure.usable? layers).getD (measure.of m) := by
  induction layers generalizing m with
  | nil => rfl
  | cons layer layers ih =>
    rw [List.foldl_cons, ih, of_adjust, lastSaid?_cons, Option.getD_or]

end Metrics

theorem Overrides.set?_under (lower upper : Overrides α) (measure : Measure) :
    measure.set? (lower.under upper) = (measure.set? upper).or (measure.set? lower) := by
  cases measure <;> simp [Measure.set?, under]

/-- Of layers on top of one another the last one that speaks of a measure decides on it. -/
theorem Overrides.set?_foldl_under (first : Overrides α) (layers : List (Overrides α))
    (measure : Measure) : measure.set? (layers.foldl under first) =
      lastSaid? measure.set? (first :: layers) := by
  induction layers generalizing first with
  | nil => simp [lastSaid?]
  | cons layer layers ih =>
    rw [List.foldl_cons, ih, lastSaid?_cons, lastSaid?_cons, lastSaid?_cons, set?_under,
      Option.or_assoc]

variable [Coordinate α]

/-- Whether a useless value that is set last hides a useful one, which would have changed the
measure. -/
def Measure.Hidden (measure : Measure) (base : Metrics α) (layers : List (Overrides α)) : Prop :=
  ∃ useless useful, lastSaid? measure.set? layers = some useless ∧
    measure.isUsable useless = false ∧ lastSaid? measure.usable? layers = some useful ∧
    useful ≠ measure.of base

/-- On one measure the last value and the last useful value agree unless the one hides the other. -/
theorem Measure.getD_eq_iff (measure : Measure) (base : Metrics α) (layers : List (Overrides α)) :
    ((lastSaid? measure.set? layers).filter measure.isUsable).getD (measure.of base) =
      (lastSaid? measure.usable? layers).getD (measure.of base) ↔ ¬ measure.Hidden base layers := by
  unfold Hidden
  cases hs : lastSaid? measure.set? layers with
  | none =>
    have hn : lastSaid? measure.usable? layers = none := lastSaid?_filter_eq_none _ hs
    simp [hn]
  | some v =>
    cases hu : measure.isUsable v with
    | true =>
      have hv : lastSaid? measure.usable? layers = some v := lastSaid?_filter hs hu
      simp [hv, hu, Option.filter_some]
    | false =>
      cases lastSaid? measure.usable? layers with
      | none => simp [hu, Option.filter_some]
      | some w => simp [hu, Option.filter_some, @eq_comm _ w]

/-- Layers laid on top of one another give each measure the value set last, if that is of use, and
layers applied in turn give it the last value that is of use. So both ways lead to the same measures
exactly if no value that is of use is hidden by one that is not. -/
theorem layers_merged_and_in_turn (base : Metrics α) (first : Overrides α)
    (layers : List (Overrides α)) :
    (∀ measure : Measure, measure.of (base.adjust (layers.foldl Overrides.under first)) =
      ((lastSaid? measure.set? (first :: layers)).filter measure.isUsable).getD
        (measure.of base)) ∧
    (∀ measure : Measure, measure.of ((first :: layers).foldl Metrics.adjust base) =
      (lastSaid? measure.usable? (first :: layers)).getD (measure.of base)) ∧
    (base.adjust (layers.foldl Overrides.under first) =
        (first :: layers).foldl Metrics.adjust base ↔
      ∀ measure : Measure, ¬ measure.Hidden base (first :: layers)) := by
  have hmerged : ∀ measure : Measure,
      measure.of (base.adjust (layers.foldl Overrides.under first)) =
        ((lastSaid? measure.set? (first :: layers)).filter measure.isUsable).getD
          (measure.of base) := by
    intro measure
    rw [Metrics.of_adjust, Measure.usable?, Overrides.set?_foldl_under]
  have hturn := Metrics.of_foldl_adjust base (first :: layers)
  refine ⟨hmerged, hturn, ?_⟩
  constructor
  · intro h measure
    rw [← Measure.getD_eq_iff, ← hmerged, ← hturn, h]
  · intro h
    refine Metrics.eq_of_measures fun measure => ?_
    rw [hmerged, hturn, Measure.getD_eq_iff]
    exact h measure

def wideNodes : Overrides Float := { nodeWidth := some 300 }

def nodesWithoutWidth : Overrides Float := { nodeWidth := some (-1) }

/-- A width below zero on top of a usable one brings back the standard width, and after the usable
one it leaves that in force. -/
theorem hidden_width : Metrics.flow.adjust (wideNodes.under nodesWithoutWidth) ≠
    (Metrics.flow.adjust wideNodes).adjust nodesWithoutWidth := by
  intro h
  exact absurd (congrArg Metrics.nodeWidth h) (by decide)

end Chartboard
