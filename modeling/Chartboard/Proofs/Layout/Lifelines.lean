import Chartboard.Proofs.Layout.Covering

namespace Chartboard

/-- Whether a rectangle keeps inside another one; their edges may meet. -/
def Rect.Within (r s : Rect Rat) : Prop :=
  ∀ axis, s.low axis ≤ r.low axis ∧ r.high axis ≤ s.high axis

theorem Rect.eq_of_ends {r s : Rect Rat}
    (h : ∀ axis, r.low axis = s.low axis ∧ r.high axis = s.high axis) : r = s := by
  obtain ⟨x, y, width, height⟩ := r
  obtain ⟨x', y', width', height'⟩ := s
  obtain ⟨hx, hright⟩ := h .horizontal
  obtain ⟨hy, hbottom⟩ := h .vertical
  simp only [low, high, right, bottom] at hx hy hright hbottom
  subst hx hy
  rw [add_left_cancel hright, add_left_cancel hbottom]

namespace SequenceDiagram

variable {m : Metrics Rat} {diagram : SequenceDiagram} {place row : Nat}

/-- Where a column starts. -/
def columnStart (m : Metrics Rat) (place : Nat) : Rat :=
  m.startX + place * (m.nodeWidth + m.spacingX)

/-- The room for the messages below the headers; without a message there is room for one. -/
def messageRoom (m : Metrics Rat) (diagram : SequenceDiagram) : Rat :=
  (max diagram.messages.length 1 : Nat) * m.spacingY

def lifeline (m : Metrics Rat) (diagram : SequenceDiagram) (place : Nat) : Rect Rat :=
  ⟨columnStart m place, m.startY, m.nodeWidth, m.nodeHeight + diagram.messageRoom m⟩

def rowAt (m : Metrics Rat) (row : Nat) : Rat :=
  m.startY + m.nodeHeight + (row + 1 / 2) * m.spacingY

theorem getElem?_nodes_layout (m : Metrics Rat) (diagram : SequenceDiagram) (place : Nat) :
    (diagram.layout m).nodes[place]? =
      diagram.participants[place]?.map (·.header m (columnStart m place)) := by
  simp [layout, Layout.within, columnStart, Option.map_map, Function.comp_def]

theorem getElem?_frames_layout (m : Metrics Rat) (diagram : SequenceDiagram) (place : Nat) :
    (diagram.layout m).frames[place]? =
      diagram.participants[place]?.map fun p => ⟨p.label, diagram.lifeline m place, [place]⟩ := by
  have hlength : m.startY + m.nodeHeight + diagram.messageRoom m - m.startY =
      m.nodeHeight + diagram.messageRoom m := by
    ring
  simp only [layout, Layout.within, List.getElem?_map, List.getElem?_zipIdx, Option.map_map,
    Function.comp_def, Nat.zero_add]
  congr 1
  funext p
  exact congrArg (fun height => Frame.mk p.label ⟨_, _, _, height⟩ [place]) hlength

theorem rows_layout (m : Metrics Rat) (hne : diagram.participants ≠ []) :
    (diagram.layout m).rows = (List.range diagram.messages.length).map (rowAt m) := by
  have hrow : ∀ row : Nat, m.startY + m.nodeHeight + ((row : Rat) + half ((1 : Nat) : Rat)) *
      m.spacingY = rowAt m row := by
    intro row
    rw [rowAt, half, Nat.cast_one]
    rfl
  simp only [layout, Layout.within, rows, List.isEmpty_eq_false_iff.2 hne, Bool.false_eq_true,
    if_false, hrow]

theorem columnStart_le (hm : m.Usable) {other : Nat} (h : place < other) :
    columnStart m place + m.nodeWidth + m.spacingX ≤ columnStart m other := by
  have hpitch : 0 ≤ m.nodeWidth + m.spacingX := add_nonneg hm.nodeWidth.le hm.spacingX
  have hsteps : (place : Rat) + 1 ≤ other := by exact_mod_cast h
  have hle := mul_le_mul_of_nonneg_right hsteps hpitch
  simp only [columnStart]
  linarith

theorem le_columnStart (hm : m.Usable) (place : Nat) : m.startX ≤ columnStart m place := by
  have hpitch : 0 ≤ m.nodeWidth + m.spacingX := add_nonneg hm.nodeWidth.le hm.spacingX
  have hsteps : 0 ≤ (place : Rat) * (m.nodeWidth + m.spacingX) :=
    mul_nonneg (Nat.cast_nonneg place) hpitch
  simp only [columnStart]
  linarith

theorem messageRoom_nonneg (hm : m.Usable) (diagram : SequenceDiagram) :
    0 ≤ diagram.messageRoom m :=
  mul_nonneg (Nat.cast_nonneg _) hm.spacingY

/-- The header of a lifeline is a cell of its column, or a square in the middle of one. -/
theorem header_within (hm : m.Usable) (p : Participant) (x : Rat) :
    (p.header m x).Within ⟨x, m.startY, m.nodeWidth, m.nodeHeight⟩ ∧
      (p.header m x).centerX = x + m.nodeWidth / 2 := by
  have hwidth := hm.nodeWidth
  unfold Participant.header
  split
  · have hh : least m.nodeHeight m.nodeWidth ≤ m.nodeHeight := least_le_left _ _
    have hw : least m.nodeHeight m.nodeWidth ≤ m.nodeWidth := by
      rw [Rect.least_eq_min]
      exact min_le_right _ _
    generalize least m.nodeHeight m.nodeWidth = side at hh hw
    constructor
    · intro axis
      cases axis <;> simp only [Rect.low, Rect.high, Rect.right, Rect.bottom, half] <;>
        constructor <;> linarith
    · simp only [Rect.centerX, half]
      ring
  · exact ⟨fun axis => ⟨le_refl _, le_refl _⟩, rfl⟩

theorem rects_frames_layout (m : Metrics Rat) (diagram : SequenceDiagram) :
    (diagram.layout m).frames.map Frame.rect =
      (List.range diagram.participants.length).map (diagram.lifeline m) := by
  refine List.ext_getElem? fun place => ?_
  rw [List.getElem?_map, List.getElem?_map, getElem?_frames_layout, Option.map_map]
  cases hp : diagram.participants[place]? with
  | none => simpa [List.getElem?_range] using hp
  | some p => simp [(List.getElem?_eq_some_iff.1 hp).1]

/-- The columns with the gaps between them. -/
def span (m : Metrics Rat) (diagram : SequenceDiagram) : Rat :=
  diagram.participants.length * m.nodeWidth +
    ((diagram.participants.length : Rat) - 1) * m.spacingX

/-- A lifeline keeps inside what the columns take. -/
theorem lifeline_within (hm : m.Usable) (h : place < diagram.participants.length) :
    (diagram.lifeline m place).Within
      ⟨m.startX, m.startY, diagram.span m, m.nodeHeight + diagram.messageRoom m⟩ := by
  intro axis
  cases axis with
  | vertical => exact ⟨le_refl _, le_refl _⟩
  | horizontal =>
    refine ⟨le_columnStart hm place, ?_⟩
    have hend := columnStart_le hm h
    simp only [Rect.high, Rect.right, lifeline, span]
    simp only [columnStart] at hend ⊢
    linarith

/-- What surrounds the lifelines starts with the first column and ends with the last one. -/
theorem union_lifelines (hm : m.Usable) (hne : diagram.participants ≠ []) :
    Rect.union ((List.range diagram.participants.length).map (diagram.lifeline m)) =
      some ⟨m.startX, m.startY, diagram.span m, m.nodeHeight + diagram.messageRoom m⟩ := by
  have hpos : 0 < diagram.participants.length := List.length_pos_iff.2 hne
  have hmem : ∀ place < diagram.participants.length, diagram.lifeline m place ∈
      (List.range diagram.participants.length).map (diagram.lifeline m) :=
    fun place h => List.mem_map_of_mem (List.mem_range.2 h)
  obtain ⟨around, hu⟩ := Rect.exists_union (List.ne_nil_of_mem (hmem 0 hpos))
  rw [hu, Option.some.injEq]
  refine Rect.eq_of_ends fun axis => ⟨le_antisymm ?_ ?_, le_antisymm ?_ ?_⟩
  · have hfirst := (Rect.low_of_union hu axis).1 _ (hmem 0 hpos)
    cases axis with
    | vertical => exact hfirst
    | horizontal => simpa [Rect.low, lifeline, columnStart] using hfirst
  · obtain ⟨r, hr, he⟩ := (Rect.low_of_union hu axis).2
    obtain ⟨place, hp, rfl⟩ := List.mem_map.1 hr
    rw [← he]
    exact (lifeline_within hm (List.mem_range.1 hp) axis).1
  · obtain ⟨r, hr, he⟩ := (Rect.high_of_union hu axis).2
    obtain ⟨place, hp, rfl⟩ := List.mem_map.1 hr
    rw [← he]
    exact (lifeline_within hm (List.mem_range.1 hp) axis).2
  · have hlast := (Rect.high_of_union hu axis).1 _ (hmem _ (Nat.sub_lt hpos Nat.one_pos))
    cases axis with
    | vertical => exact hlast
    | horizontal =>
      refine le_trans (le_of_eq ?_) hlast
      simp only [Rect.high, Rect.right, lifeline, columnStart, span, Nat.cast_sub hpos]
      push_cast
      ring

/-- All that is drawn is as wide as the columns and as high as a lifeline. -/
theorem size_layout (hm : m.Usable) (hne : diagram.participants ≠ []) :
    (diagram.layout m).width = diagram.span m ∧
      (diagram.layout m).height = m.nodeHeight + diagram.messageRoom m := by
  have hu := union_lifelines hm hne
  rw [← rects_frames_layout] at hu
  have hw : (diagram.layout m).width =
      ((Rect.union ((diagram.layout m).frames.map Frame.rect)).map Rect.width).getD 0 := rfl
  have hh : (diagram.layout m).height =
      ((Rect.union ((diagram.layout m).frames.map Frame.rect)).map Rect.height).getD 0 := rfl
  rw [hw, hh, hu]
  exact ⟨rfl, rfl⟩

theorem exists_row (hne : diagram.participants ≠ []) {y : Rat}
    (h : (diagram.layout m).rows[row]? = some y) :
    row < diagram.messages.length ∧ y = rowAt m row := by
  rw [rows_layout m hne] at h
  obtain ⟨hlt, rfl⟩ := List.getElem?_eq_some_iff.1 h
  rw [List.length_map, List.length_range] at hlt
  exact ⟨hlt, by rw [List.getElem_map, List.getElem_range]⟩

theorem rowAt_succ (m : Metrics Rat) (row : Nat) :
    rowAt m (row + 1) = rowAt m row + m.spacingY := by
  simp only [rowAt, Nat.cast_succ]
  ring

/-- A row leaves half a step to the headers and to the ends of the lifelines. -/
theorem rowAt_bounds (hm : m.Usable) (h : row < diagram.messages.length) :
    m.startY + m.nodeHeight + m.spacingY / 2 ≤ rowAt m row ∧
      rowAt m row + m.spacingY / 2 ≤ m.startY + (m.nodeHeight + diagram.messageRoom m) := by
  have hspacing := hm.spacingY
  have hcount : row + 1 ≤ max diagram.messages.length 1 := le_max_of_le_left h
  have hsteps : (row : Rat) + 1 ≤ (max diagram.messages.length 1 : Nat) := by exact_mod_cast hcount
  have habove : 0 ≤ (row : Rat) * m.spacingY := mul_nonneg (Nat.cast_nonneg row) hspacing
  have hbelow := mul_le_mul_of_nonneg_right hsteps hspacing
  simp only [rowAt, messageRoom]
  constructor <;> linarith

theorem header_within_lifeline (hm : m.Usable) (p : Participant) (place : Nat) :
    (p.header m (columnStart m place)).Within (diagram.lifeline m place) := by
  have hroom := messageRoom_nonneg hm diagram
  intro axis
  obtain ⟨hlow, hhigh⟩ := (header_within hm p (columnStart m place)).1 axis
  cases axis with
  | horizontal => exact ⟨hlow, hhigh⟩
  | vertical =>
    refine ⟨hlow, hhigh.trans ?_⟩
    simp only [Rect.high, Rect.bottom, lifeline]
    linarith

theorem exists_lifeline {frame : Frame Rat} (h : frame ∈ (diagram.layout m).frames) :
    ∃ place, frame.rect = diagram.lifeline m place := by
  have hr := List.mem_map_of_mem (f := Frame.rect) h
  rw [rects_frames_layout] at hr
  obtain ⟨place, -, he⟩ := List.mem_map.1 hr
  exact ⟨place, he.symm⟩

end SequenceDiagram

/-- A sequence diagram in columns: it starts where it should and is as wide as its columns and the
gaps between them, the lifelines are as long as their messages need and keep a gap, each header
stands in the middle of its own lifeline, and the rows of the messages cross the lifelines below the
headers, one step apart. -/
structure SequenceDiagram.Arranged (m : Metrics Rat) (diagram : SequenceDiagram)
    (layout : Layout Rat) : Prop where
  width : layout.width = diagram.participants.length * m.nodeWidth +
    ((diagram.participants.length : Rat) - 1) * m.spacingX
  height : layout.height = m.nodeHeight + (max diagram.messages.length 1 : Nat) * m.spacingY
  bounds : Rect.union (layout.frames.map Frame.rect) =
    some ⟨m.startX, m.startY, layout.width, layout.height⟩
  nodes : layout.nodes.length = diagram.participants.length
  frames : layout.frames.length = diagram.participants.length
  rows : layout.rows.length = diagram.messages.length
  spanning : ∀ frame ∈ layout.frames, frame.rect.low .vertical = m.startY ∧
    frame.rect.high .vertical = m.startY + layout.height
  apart : layout.frames.Pairwise fun f g =>
    f.rect.high .horizontal + m.spacingX ≤ g.rect.low .horizontal
  headed : ∀ (place : Nat) (p : Participant), diagram.participants[place]? = some p →
    ∃ header frame, layout.nodes[place]? = some header ∧ layout.frames[place]? = some frame ∧
      frame.members = [place] ∧ header.Solid ∧ (p.actor = true → header.width = header.height) ∧
      header.Within frame.rect ∧ header.middle .horizontal = frame.rect.middle .horizontal ∧
      header.high .vertical ≤ m.startY + m.nodeHeight
  even : ∀ (row : Nat) (y z : Rat), layout.rows[row]? = some y → layout.rows[row + 1]? = some z →
    z = y + m.spacingY
  /-- Half a step is left above the first row and below the last one. -/
  crossing : ∀ y ∈ layout.rows, ∀ frame ∈ layout.frames,
    m.startY + m.nodeHeight + m.spacingY / 2 ≤ y ∧ y + m.spacingY / 2 ≤ frame.rect.high .vertical

/-- In usable measures every sequence diagram with a participant is arranged in columns. -/
theorem sequences_stand_in_columns {m : Metrics Rat} (hm : m.Usable) {diagram : SequenceDiagram}
    (hne : diagram.participants ≠ []) : diagram.Arranged m (diagram.layout m) := by
  obtain ⟨hwidth, hheight⟩ := SequenceDiagram.size_layout hm hne
  have hrects := SequenceDiagram.rects_frames_layout m diagram
  refine ⟨hwidth, hheight, ?_, ?_, diagram.length_frames_layout m, ?_, ?_, ?_, ?_, ?_, ?_⟩
  · rw [hrects, SequenceDiagram.union_lifelines hm hne, hwidth, hheight]
  · simp [SequenceDiagram.layout, Layout.within]
  · rw [SequenceDiagram.rows_layout m hne, List.length_map, List.length_range]
  · intro frame hf
    obtain ⟨place, he⟩ := SequenceDiagram.exists_lifeline hf
    rw [he, hheight]
    exact ⟨rfl, rfl⟩
  · have hapart : ((diagram.layout m).frames.map Frame.rect).Pairwise fun r s =>
        r.high .horizontal + m.spacingX ≤ s.low .horizontal := by
      rw [hrects, List.pairwise_map]
      exact List.pairwise_lt_range.imp fun hlt => SequenceDiagram.columnStart_le hm hlt
    exact List.pairwise_map.1 hapart
  · intro place p hp
    obtain ⟨hwithin, hmiddle⟩ :=
      SequenceDiagram.header_within hm p (SequenceDiagram.columnStart m place)
    refine ⟨p.header m (SequenceDiagram.columnStart m place),
      ⟨p.label, diagram.lifeline m place, [place]⟩, ?_, ?_, rfl, p.header_solid hm _, ?_,
      SequenceDiagram.header_within_lifeline hm p place, hmiddle, (hwithin .vertical).2⟩
    · rw [SequenceDiagram.getElem?_nodes_layout, hp, Option.map_some]
    · rw [SequenceDiagram.getElem?_frames_layout, hp, Option.map_some]
    · intro ha
      rw [Participant.header, if_pos ha]
  · intro row y z hy hz
    obtain ⟨-, rfl⟩ := SequenceDiagram.exists_row hne hy
    obtain ⟨-, rfl⟩ := SequenceDiagram.exists_row hne hz
    exact SequenceDiagram.rowAt_succ m row
  · intro y hy frame hf
    obtain ⟨place, he⟩ := SequenceDiagram.exists_lifeline hf
    obtain ⟨row, hrow⟩ := List.mem_iff_getElem?.1 hy
    obtain ⟨hlt, rfl⟩ := SequenceDiagram.exists_row hne hrow
    rw [he]
    exact SequenceDiagram.rowAt_bounds hm hlt

/-- An actor between two others, in cells that are higher than wide, and two messages. -/
def relay : SequenceDiagram where
  participants := [⟨"a", "a", false⟩, ⟨"b", "b", true⟩, ⟨"c", "c", false⟩]
  messages := [⟨"a", "b", "", ⟨false, .filled⟩, none⟩, ⟨"b", "c", "", ⟨true, .async⟩, none⟩]

def narrowCells : Metrics Rat := ⟨5, -3, 60, 90, 30, 40⟩

theorem relay_stands_in_columns : narrowCells.Usable ∧ relay.participants ≠ [] ∧
    (relay.layout narrowCells).width = 240 ∧ (relay.layout narrowCells).height = 170 := by
  have hm : narrowCells.Usable := by constructor <;> decide
  have hne : relay.participants ≠ [] := by decide
  have h := sequences_stand_in_columns hm hne
  refine ⟨hm, hne, h.width.trans ?_, h.height.trans ?_⟩ <;> decide +kernel

end Chartboard
