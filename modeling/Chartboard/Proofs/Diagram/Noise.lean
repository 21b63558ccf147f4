import Chartboard.Proofs.Diagram.Rows
import Mathlib.Logic.Relation

namespace Chartboard
open Text

variable {rows more before after : List (List Char)} {line row left right : List Char}

/-- Whether a line in the body of a diagram is passed over: in a flowchart one that closes no group,
opens none and is no chain of nodes up to its end, in a sequence diagram one that declares nobody
and is a block or a note or else no message. -/
def Header.Ignores (header : Header) (line : List Char) : Prop :=
  match header with
  | .flow _ =>
    let said := trimEnd (dropEndWhile (· == ';') line)
    sameLetters said "end".toList = false ∧ afterKeyword? "subgraph".toList said = none ∧
      Flow.Statement.read? said = none
  | .sequence =>
    afterKeyword? "participant".toList line = none ∧ afterKeyword? "actor".toList line = none ∧
      (Sequence.isBlock line = true ∨ Sequence.message? line = none)

/-- One edit of the layout. A row is what stands between two line feeds, so it may end with a
carriage return. -/
inductive Edit : List (List Char) → List (List Char) → Prop
  | blank (before after : List (List Char)) (row : List Char) (h : trim row = []) :
    Edit (before ++ after) (before ++ row :: after)
  | comment (before after : List (List Char)) (row : List Char)
    (h : startsWith ['%', '%'] (trim row) = true) :
    Edit (before ++ after) (before ++ row :: after)
  /-- Blanks around a line. -/
  | pad (before after : List (List Char)) (left line right : List Char)
    (hl : left.all isBlank = true) (hr : right.all isBlank = true) :
    Edit (before ++ line :: after) (before ++ (left ++ line ++ right) :: after)
  /-- A line somewhere after the header. -/
  | ignored (before after : List (List Char)) (row first : List Char) (header : Header)
    (hf : (meaningfulLines before).head? = some first) (hh : Header.read? first = some header)
    (h : header.Ignores (trim row)) : Edit (before ++ after) (before ++ row :: after)

/-- Texts of which one becomes the other by edits of the layout, done or undone. -/
def SameUpToLayout (text other : List Char) : Prop :=
  Relation.EqvGen Edit (text.splitOn '\n') (other.splitOn '\n')

theorem meaningfulLines_insert (h : ¬ Says row) (before after : List (List Char)) :
    meaningfulLines (before ++ row :: after) = meaningfulLines (before ++ after) := by
  have hrow : meaningfulLines [row] = [] := by
    simpa [meaningfulLines, Says] using h
  rw [meaningfulLines_append, ← List.singleton_append, meaningfulLines_append, hrow,
    List.nil_append, meaningfulLines_append]

theorem Flow.Line.ofText_ignored {direction : Direction}
    (h : (Header.flow direction).Ignores line) : Flow.Line.ofText line = .other := by
  obtain ⟨he, hs, hr⟩ := h
  simp only [Flow.Line.ofText, he, hs, hr]
  rfl

theorem Sequence.Line.ofText_ignored (h : Header.sequence.Ignores line) :
    Sequence.Line.ofText line = .other := by
  obtain ⟨hp, ha, hb | hm⟩ := h
  · simp only [Sequence.Line.ofText, hp, ha, hb]
    rfl
  · simp only [Sequence.Line.ofText, hp, ha, hm]
    exact ite_self _

/-- A line that is passed over draws nothing, whatever is open around it. -/
theorem Diagram.ofLines_ignored {header : Header} (h : header.Ignores line)
    (before after : List (List Char)) :
    Diagram.ofLines header (before ++ line :: after) = .ofLines header (before ++ after) := by
  cases header with
  | flow direction =>
    simp [Diagram.ofLines, FlowGraph.ofLines, Flow.Line.ofText_ignored h, Flow.Draft.add]
  | sequence =>
    simp [Diagram.ofLines, SequenceDiagram.ofLines, Sequence.Line.ofText_ignored h, Sequence.add]

/-- No edit changes what is drawn. -/
theorem drawn?_edit (h : Edit rows more) : drawn? more = drawn? rows := by
  cases h with
  | blank before after row h =>
    rw [drawn?, meaningfulLines_insert fun hs => hs.1 h, drawn?]
  | comment before after row h =>
    rw [drawn?, meaningfulLines_insert fun hs => absurd h (by simp [hs.2]), drawn?]
  | pad before after left line right hl hr =>
    have hm : meaningfulLines (before ++ (left ++ line ++ right) :: after) =
        meaningfulLines (before ++ line :: after) := by
      apply meaningfulLines_congr
      simp only [List.map_append, List.map_cons,
        trim_pad (List.all_eq_true.1 hl) (List.all_eq_true.1 hr)]
    rw [drawn?, hm, drawn?]
  | ignored before after row first header hf hh h =>
    obtain ⟨body, hb⟩ := List.head?_eq_some_iff.1 hf
    by_cases hs : Says row
    · -- The row comes into the body of the diagram, where it draws nothing.
      have hrow := meaningfulLines_cons_says hs after
      have hlines := Diagram.ofLines_ignored h body (meaningfulLines after)
      simp only [drawn?, meaningfulLines_append, hb, hrow, List.cons_append, hh, Option.map_some,
        hlines]
    · rw [drawn?, meaningfulLines_insert hs, drawn?]

theorem drawn?_noise (h : Relation.EqvGen Edit rows more) : drawn? more = drawn? rows := by
  induction h with
  | rel rows more h => exact drawn?_edit h
  | refl rows => rfl
  | symm rows more _ ih => exact ih.symm
  | trans rows between more _ _ ih₁ ih₂ => exact ih₂.trans ih₁

/-- Edits of the layout do not change how a text is read, as long as it stays within the limits. -/
theorem read_eq_of_sameUpToLayout {text other : List Char} {diagram : Diagram}
    (hr : Diagram.read text = .ok diagram) (he : SameUpToLayout text other)
    (hl : WithinLimits other) : Diagram.read other = .ok diagram := by
  obtain ⟨-, hd⟩ := Diagram.read_eq_ok_iff.1 hr
  exact Diagram.read_eq_ok_iff.2 ⟨hl, (drawn?_noise he).trans hd⟩

def tidyText : List Char :=
  "graph LR\na --> b".toList

/-- The same with a comment, a blank row, blanks and returns around the lines, and a line that is no
chain of nodes. -/
def noisyText : List Char :=
  "%% plan\n\n\tgraph LR \r\nstyle a red\na --> b\r".toList

def tidyGraph : FlowGraph where
  direction := .leftToRight
  nodes := [⟨"a", "a", .rectangle, false, none⟩, ⟨"b", "b", .rectangle, false, none⟩]
  edges := [⟨"a", "b", none, .solid, .none, .arrow⟩]
  groups := []

theorem noisyText_read : Diagram.read tidyText = .ok (.flow tidyGraph) ∧
    SameUpToLayout tidyText noisyText ∧ WithinLimits noisyText ∧
    Diagram.read noisyText = .ok (.flow tidyGraph) := by
  have hr : Diagram.read tidyText = .ok (.flow tidyGraph) := Diagram.read_eq_ok_iff.2
    ⟨⟨by decide +kernel, by decide +kernel, by decide +kernel⟩, by decide +kernel⟩
  have hl : WithinLimits noisyText := ⟨by decide +kernel, by decide +kernel, by decide +kernel⟩
  have he : SameUpToLayout tidyText noisyText := by
    have hrows : tidyText.splitOn '\n' = ["graph LR".toList, "a --> b".toList] := by decide +kernel
    have hnoisy : noisyText.splitOn '\n' = ["%% plan".toList, [], "\tgraph LR \r".toList,
        "style a red".toList, "a --> b\r".toList] := by decide +kernel
    rw [SameUpToLayout, hrows, hnoisy]
    have hcomment := Edit.comment [] ["graph LR".toList, "a --> b".toList] "%% plan".toList
      (by decide +kernel)
    have hblank := Edit.blank ["%% plan".toList] ["graph LR".toList, "a --> b".toList] [] rfl
    have hheader := Edit.pad ["%% plan".toList, []] ["a --> b".toList] ['\t'] "graph LR".toList
      [' ', '\r'] (by decide) (by decide)
    have hline := Edit.pad ["%% plan".toList, [], "\tgraph LR \r".toList] [] [] "a --> b".toList
      ['\r'] (by decide) (by decide)
    have hignored := Edit.ignored ["%% plan".toList, [], "\tgraph LR \r".toList]
      ["a --> b\r".toList] "style a red".toList "graph LR".toList (.flow .leftToRight)
      (by decide +kernel) (by decide +kernel) (by unfold Header.Ignores; decide +kernel)
    exact .trans _ _ _ (.rel _ _ hcomment) (.trans _ _ _ (.rel _ _ hblank)
      (.trans _ _ _ (.rel _ _ hheader) (.trans _ _ _ (.rel _ _ hline) (.rel _ _ hignored))))
  exact ⟨hr, he, hl, read_eq_of_sameUpToLayout hr he hl⟩

end Chartboard
