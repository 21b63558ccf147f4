import Chartboard.Proofs.Layout.Arrangement
import Chartboard.Proofs.Layout.Lifelines
import Chartboard.Proofs.Plan.Framing

namespace Chartboard

namespace SequenceDiagram

/-- A box at an end of the message with the number `row`. Such boxes stand behind the heads of the
lifelines, two for each message. -/
def IsAnchor (diagram : SequenceDiagram) (plan : Plan Rat) (row : Nat) (box : BoxItem Rat Nat) :
    Prop :=
  ∃ place, plan.boxes[diagram.participants.length + place]? = some box ∧ place / 2 = row

/-- A plan in which the boxes at the ends of messages stand as they should. -/
structure AnchorsFit (diagram : SequenceDiagram) (plan : Plan Rat) : Prop where
  inside : ∀ row box, diagram.IsAnchor plan row box → ∃ k frame, box.parent = some k ∧
    plan.frames[k]? = some frame ∧ box.rect.Within frame.rect
  below : ∀ row box, diagram.IsAnchor plan row box → ∃ k head, box.parent = some k ∧
    plan.boxes[k]? = some head ∧ head.rect.high .vertical < box.rect.low .vertical
  apart : ∀ row other a b, row ≠ other → diagram.IsAnchor plan row a →
    diagram.IsAnchor plan other b → a.parent = b.parent → ¬ a.rect.Overlaps b.rect

def headHeight (m : Metrics Rat) (p : Participant) : Rat :=
  if p.actor then min m.nodeHeight m.nodeWidth else m.nodeHeight

/-- A plan in which each box at an end of a message belongs to a lifeline with a frame and a head,
and stands well by the room that the measures leave: half a step to the ends of the first and the
last message, and whole steps from one message to another. -/
structure Anchorage (m : Metrics Rat) (diagram : SequenceDiagram) (plan : Plan Rat) : Prop where
  count : plan.boxes.length = diagram.participants.length + 2 * diagram.messages.length
  stands : ∀ (row : Nat) (box : BoxItem Rat Nat), diagram.IsAnchor plan row box →
    row < diagram.messages.length ∧ ∃ k p head frame, box.parent = some k ∧
      diagram.participants[k]? = some p ∧ plan.boxes[k]? = some head ∧
      plan.frames[k]? = some frame ∧
      box.width = 8 ∧ box.height = 8 ∧
      (box.rect.Within frame.rect ↔ 8 ≤ m.nodeWidth ∧
        4 ≤ m.nodeHeight + (row + 1 / 2) * m.spacingY ∧
        4 ≤ (diagram.messages.length - row - 1 / 2) * m.spacingY) ∧
      (head.rect.high .vertical < box.rect.low .vertical ↔
        headHeight m p + 4 < m.nodeHeight + (row + 1 / 2) * m.spacingY)
  apart : ∀ row other a b, diagram.IsAnchor plan row a → diagram.IsAnchor plan other b →
    a.parent = b.parent → (a.rect.Overlaps b.rect ↔ |(row : Rat) - other| * m.spacingY < 8)

variable {m : Metrics Rat} {diagram : SequenceDiagram} {row other place : Nat}
  {box : BoxItem Rat Nat}

/-- The rectangle of a circle in the middle of a lifeline. -/
def anchorRect (m : Metrics Rat) (place row : Nat) : Rect Rat :=
  .about (columnStart m place + m.nodeWidth / 2) (rowAt m row) 8 8

theorem anchorRect_ends (m : Metrics Rat) (place row : Nat) :
    (anchorRect m place row).low .horizontal = columnStart m place + m.nodeWidth / 2 - 4 ∧
    (anchorRect m place row).high .horizontal = columnStart m place + m.nodeWidth / 2 + 4 ∧
    (anchorRect m place row).low .vertical = rowAt m row - 4 ∧
    (anchorRect m place row).high .vertical = rowAt m row + 4 := by
  simp only [anchorRect, Rect.about, Rect.low, Rect.high, Rect.right, Rect.bottom, half]
  refine ⟨?_, ?_, ?_, ?_⟩ <;> ring

/-- A circle keeps inside its lifeline if the column is wide enough, and if there is room for it
above and below. -/
theorem anchorRect_within (h : row < diagram.messages.length) :
    (anchorRect m place row).Within (diagram.lifeline m place) ↔ 8 ≤ m.nodeWidth ∧
      4 ≤ m.nodeHeight + (row + 1 / 2) * m.spacingY ∧
      4 ≤ (diagram.messages.length - row - 1 / 2) * m.spacingY := by
  obtain ⟨hleft, hright, htop, hbottom⟩ := anchorRect_ends m place row
  have hmax : max diagram.messages.length 1 = diagram.messages.length :=
    max_eq_left (Nat.one_le_of_lt h)
  constructor
  · intro hw
    obtain ⟨hl, hr⟩ := hw .horizontal
    obtain ⟨ht, hb⟩ := hw .vertical
    rw [hleft] at hl
    rw [hright] at hr
    rw [htop] at ht
    rw [hbottom] at hb
    simp only [Rect.low, Rect.high, Rect.right, Rect.bottom, lifeline, messageRoom, hmax,
      rowAt] at *
    refine ⟨?_, ?_, ?_⟩ <;> linarith
  · rintro ⟨hw, ha, hb⟩ axis
    cases axis with
    | horizontal =>
      rw [hleft, hright]
      simp only [Rect.low, Rect.high, Rect.right, lifeline]
      constructor <;> linarith
    | vertical =>
      rw [htop, hbottom]
      simp only [Rect.low, Rect.high, Rect.bottom, lifeline, messageRoom, hmax, rowAt]
      constructor <;> linarith

theorem high_header (m : Metrics Rat) (p : Participant) (x : Rat) :
    (p.header m x).high .vertical = m.startY + headHeight m p := by
  unfold Participant.header headHeight
  split
  · rw [← Rect.least_eq_min]
    rfl
  · rfl

theorem header_above_anchor (m : Metrics Rat) (p : Participant) (x : Rat) (place row : Nat) :
    (p.header m x).high .vertical < (anchorRect m place row).low .vertical ↔
      headHeight m p + 4 < m.nodeHeight + (row + 1 / 2) * m.spacingY := by
  rw [high_header, (anchorRect_ends m place row).2.2.1, rowAt]
  constructor <;> intro h <;> linarith

/-- Circles on one lifeline overlap if their rows are less than their size apart. -/
theorem anchorRect_overlaps (hm : m.Usable) (place row other : Nat) :
    (anchorRect m place row).Overlaps (anchorRect m place other) ↔
      |(row : Rat) - other| * m.spacingY < 8 := by
  obtain ⟨hleft, hright, htop, hbottom⟩ := anchorRect_ends m place row
  obtain ⟨hleft', hright', htop', hbottom'⟩ := anchorRect_ends m place other
  have hdiff : rowAt m row - rowAt m other = ((row : Rat) - other) * m.spacingY := by
    simp only [rowAt]
    ring
  have habs : |(row : Rat) - other| * m.spacingY = |rowAt m row - rowAt m other| := by
    rw [hdiff, abs_mul, abs_of_nonneg hm.spacingY]
  rw [habs, abs_sub_lt_iff]
  constructor
  · intro h
    obtain ⟨ha, hb⟩ := h .vertical
    rw [htop, hbottom'] at ha
    rw [htop', hbottom] at hb
    constructor <;> linarith
  · rintro ⟨ha, hb⟩ axis
    cases axis with
    | horizontal =>
      rw [hleft, hright, hleft', hright']
      constructor <;> linarith
    | vertical =>
      rw [htop, hbottom, htop', hbottom']
      constructor <;> linarith

/-- What the box at an end of a message is: a circle on the lifeline of a participant, at the height
of the row of the message. -/
theorem exists_anchor (hj : diagram.Joined) (m : Metrics Rat)
    (h : diagram.IsAnchor (diagram.plan (diagram.layout m)) row box) :
    row < diagram.messages.length ∧ ∃ k p, diagram.participants[k]? = some p ∧
      box.parent = some k ∧ box.width = 8 ∧ box.height = 8 ∧ box.rect = anchorRect m k row := by
  obtain ⟨place, hb, rfl⟩ := h
  rw [getElem?_boxes_behind (diagram.length_nodes_layout m)] at hb
  have hf := diagram.length_frames_layout m
  have hr : diagram.participants ≠ [] →
      (diagram.layout m).rows.length = diagram.messages.length := length_rows_layout m
  have hcount : (diagram.crossings (diagram.layout m)).length = diagram.messages.length := by
    rw [← (forall₂_crossings hf hr).length_eq, hj.known_eq, List.length_zipIdx]
  have hlt := (List.getElem?_eq_some_iff.1 hb).1
  rw [length_circles, hcount] at hlt
  have hrow : place / 2 < diagram.messages.length := by omega
  refine ⟨hrow, ?_⟩
  obtain ⟨message, hmessage⟩ : ∃ message, diagram.messages[place / 2]? = some message :=
    ⟨_, List.getElem?_eq_getElem hrow⟩
  have hknown : diagram.known[place / 2]? = some (message, place / 2) := by
    rw [hj.known_eq, List.getElem?_zipIdx, hmessage]
    simp
  obtain ⟨y, source, target, first, second, hy, -, -, hfirst, hsecond, hc⟩ :=
    exists_crossing hf hr hknown
  obtain ⟨hcs, hct⟩ := getElem?_circles (diagram.crossings (diagram.layout m)) (place / 2)
  rw [hc] at hcs hct
  have hends : ∃ k frame, (diagram.layout m).frames[k]? = some frame ∧ box = anchor frame y k := by
    rcases Nat.mod_two_eq_zero_or_one place with hp | hp
    · rw [show place = 2 * (place / 2) by omega, hcs] at hb
      exact ⟨source, first, hfirst, (Option.some.inj hb).symm⟩
    · rw [show place = 2 * (place / 2) + 1 by omega, hct] at hb
      exact ⟨target, second, hsecond, (Option.some.inj hb).symm⟩
  obtain ⟨k, frame, hframe, rfl⟩ := hends
  rw [getElem?_frames_layout] at hframe
  obtain ⟨p, hp, rfl⟩ := Option.map_eq_some_iff.1 hframe
  obtain ⟨-, rfl⟩ := exists_row (List.ne_nil_of_mem (List.mem_of_getElem? hp)) hy
  exact ⟨k, p, hp, rfl, rfl, rfl, rfl⟩

theorem exists_lifeline_items (m : Metrics Rat) {k : Nat} {p : Participant}
    (hp : diagram.participants[k]? = some p) : ∃ head frame,
      (diagram.plan (diagram.layout m)).boxes[k]? = some head ∧
      (diagram.plan (diagram.layout m)).frames[k]? = some frame ∧
      head.rect = p.header m (columnStart m k) ∧ frame.rect = diagram.lifeline m k := by
  obtain ⟨head, rect, hhead, hrect, hcovers, -⟩ :=
    (diagram.plan_layout_corresponds m).heads k p hp
  have hframe : (diagram.plan (diagram.layout m)).frames[k]? =
      some (Frame.item Palette.lifeline ⟨p.label, diagram.lifeline m k, [k]⟩) := by
    rw [plan, List.getElem?_map, getElem?_frames_layout, hp]
    rfl
  refine ⟨head, _, hhead, hframe, ?_, Frame.rect_item ..⟩
  rw [getElem?_nodes_layout, hp, Option.map_some] at hrect
  rw [hcovers.rect_eq, ← Option.some.inj hrect]

theorem anchorage (hm : m.Usable) (hj : diagram.Joined) :
    diagram.Anchorage m (diagram.plan (diagram.layout m)) := by
  refine ⟨?_, ?_, ?_⟩
  · have hcount := (diagram.plan_layout_corresponds m).boxes
    rwa [hj.known_eq, List.length_zipIdx] at hcount
  · intro row box hbox
    obtain ⟨hrow, k, p, hp, hparent, hw, hh, hrect⟩ := exists_anchor hj m hbox
    obtain ⟨head, frame, hhead, hframe, hheader, hlifeline⟩ := exists_lifeline_items m hp
    refine ⟨hrow, k, p, head, frame, hparent, hp, hhead, hframe, hw, hh, ?_, ?_⟩
    · rw [hrect, hlifeline]
      exact anchorRect_within hrow
    · rw [hrect, hheader]
      exact header_above_anchor m p _ k row
  · intro row other a b ha hb hparent
    obtain ⟨-, k, -, -, hk, -, -, hrect⟩ := exists_anchor hj m ha
    obtain ⟨-, l, -, -, hl, -, -, hother⟩ := exists_anchor hj m hb
    obtain rfl : k = l := Option.some.inj (hk.symm.trans (hparent.trans hl))
    rw [hrect, hother]
    exact anchorRect_overlaps hm k row other

theorem headHeight_le (m : Metrics Rat) (p : Participant) : headHeight m p ≤ m.nodeHeight := by
  unfold headHeight
  split
  · exact min_le_left _ _
  · exact le_refl _

/-- A column as wide as a circle and steps higher than one are enough. -/
theorem Anchorage.fit {plan : Plan Rat} (h : diagram.Anchorage m plan) (hm : m.Usable)
    (hwidth : 8 ≤ m.nodeWidth) (hstep : 8 < m.spacingY) : diagram.AnchorsFit plan := by
  refine ⟨?_, ?_, ?_⟩
  · intro row box hbox
    obtain ⟨hrow, k, p, head, frame, hparent, -, -, hframe, -, -, hinside, -⟩ :=
      h.stands row box hbox
    refine ⟨k, frame, hparent, hframe, hinside.2 ⟨hwidth, ?_, ?_⟩⟩
    · have habove : 0 ≤ (row : Rat) * m.spacingY := mul_nonneg (Nat.cast_nonneg row) hm.spacingY
      have hheight := hm.nodeHeight
      linarith
    · have hlast : (row : Rat) + 1 ≤ diagram.messages.length := by exact_mod_cast hrow
      have hbelow := mul_le_mul_of_nonneg_right hlast hm.spacingY
      linarith
  · intro row box hbox
    obtain ⟨-, k, p, head, frame, hparent, -, hhead, -, -, -, -, hbelow⟩ :=
      h.stands row box hbox
    refine ⟨k, head, hparent, hhead, hbelow.2 ?_⟩
    have habove : 0 ≤ (row : Rat) * m.spacingY := mul_nonneg (Nat.cast_nonneg row) hm.spacingY
    have hle := headHeight_le m p
    linarith
  · intro row other a b hne ha hb hparent hover
    have hlt := (h.apart row other a b ha hb hparent).1 hover
    have hstep' : 1 ≤ |(row : Rat) - other| := by
      have hint : (1 : Int) ≤ |(row : Int) - other| := Int.one_le_abs (by omega)
      exact_mod_cast hint
    have hle := mul_le_mul_of_nonneg_right hstep' hm.spacingY
    linarith

end SequenceDiagram

/-- Whatever sequence diagram is read and whatever replaces the measures, the circles at the ends of
its messages stand as well as the measures allow. Where a column is at least as wide as a circle and
a step higher than one, as in the standard measures, nothing is left to be desired. -/
theorem anchors_stand_by_measures (stencils : Bool) (o : Overrides Rat) {text : List Char}
    {diagram : SequenceDiagram} (h : Diagram.read text = .ok (.sequence diagram)) :
    let m := (Diagram.sequence diagram).metrics o
    ∃ plan, Plan.ofText stencils o text = .ok plan ∧ diagram.Anchorage m plan ∧
      (8 ≤ m.nodeWidth → 8 < m.spacingY → diagram.AnchorsFit plan) := by
  intro m
  have hm : m.Usable := Diagram.metrics_usable _ o
  have ha := SequenceDiagram.anchorage hm (Diagram.joined_of_read h)
  refine ⟨diagram.plan (diagram.layout m), ?_, ha, ha.fit hm⟩
  rw [Plan.ofText, h]
  rfl

def soliloquy : SequenceDiagram where
  participants := [⟨"a", "a", false⟩]
  messages := [⟨"a", "a", "one", ⟨false, .filled⟩, none⟩, ⟨"a", "a", "two", ⟨false, .filled⟩, none⟩,
    ⟨"a", "a", "three", ⟨false, .filled⟩, none⟩]

def soliloquy.text : String :=
  "sequenceDiagram\na->>a: one\na->>a: two\na->>a: three"

def smallSteps : Overrides Rat := { spacingY := some 5 }

def narrowColumns : Overrides Rat := { nodeWidth := some 4 }

/-- Messages so close that each circle overlaps those of the next message, and no others. -/
theorem soliloquy_anchorage :
    Diagram.read soliloquy.text.toList = .ok (.sequence soliloquy) ∧
    ∃ plan, Plan.ofText false smallSteps soliloquy.text.toList = .ok plan ∧
      plan.boxes.length = 7 ∧
      ∀ row other a b, soliloquy.IsAnchor plan row a → soliloquy.IsAnchor plan other b →
        a.parent = b.parent → (a.rect.Overlaps b.rect ↔ |(row : Rat) - other| * 5 < 8) := by
  have hread : Diagram.read soliloquy.text.toList = .ok (.sequence soliloquy) := by decide +kernel
  obtain ⟨plan, hplan, ha, -⟩ := anchors_stand_by_measures false smallSteps hread
  exact ⟨hread, plan, hplan, ha.count, ha.apart⟩

/-- On a lifeline that is narrower than a circle the circles reach beyond it. -/
theorem narrow_lifeline_outgrown :
    Diagram.read soliloquy.text.toList = .ok (.sequence soliloquy) ∧
    ∃ plan, Plan.ofText false narrowColumns soliloquy.text.toList = .ok plan ∧
      ¬ soliloquy.AnchorsFit plan := by
  have hread : Diagram.read soliloquy.text.toList = .ok (.sequence soliloquy) := by decide +kernel
  let m : Metrics Rat := (Diagram.sequence soliloquy).metrics narrowColumns
  have ha : soliloquy.Anchorage m (soliloquy.plan (soliloquy.layout m)) :=
    SequenceDiagram.anchorage (Diagram.metrics_usable _ _) (Diagram.joined_of_read hread)
  refine ⟨hread, soliloquy.plan (soliloquy.layout m), ?_, ?_⟩
  · rw [Plan.ofText, hread]
    rfl
  · intro hfit
    obtain ⟨box, hbox⟩ : ∃ box, (soliloquy.plan (soliloquy.layout m)).boxes[1]? = some box :=
      ⟨_, List.getElem?_eq_getElem (by rw [ha.count]; decide)⟩
    have hanchor : soliloquy.IsAnchor (soliloquy.plan (soliloquy.layout m)) 0 box := ⟨0, hbox, rfl⟩
    obtain ⟨-, k, -, -, frame, hparent, -, -, hframe, -, -, hinside, -⟩ := ha.stands 0 box hanchor
    obtain ⟨l, other, hsame, hother, hwithin⟩ := hfit.inside 0 box hanchor
    obtain rfl : k = l := Option.some.inj (hparent.symm.trans hsame)
    obtain rfl : frame = other := Option.some.inj (hframe.symm.trans hother)
    exact absurd (hinside.1 hwithin).1 (by decide +kernel)

end Chartboard
