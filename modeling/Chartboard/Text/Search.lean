import Chartboard.Text.Blank

namespace Chartboard.Text

/-- What follows `mark`, if the text starts with it. -/
def after? : List Char → List Char → Option (List Char)
  | [], cs => some cs
  | _ :: _, [] => none
  | m :: ms, c :: cs => if m = c then after? ms cs else none

def startsWith (mark cs : List Char) : Bool :=
  (after? mark cs).isSome

/-- The text before the first occurrence of `mark` and the text after it. -/
def cut (mark : List Char) : List Char → Option (List Char × List Char)
  | [] => (after? mark []).map ([], ·)
  | c :: cs =>
    match after? mark (c :: cs) with
    | some rest => some ([], rest)
    | none => (cut mark cs).map fun (before, rest) => (c :: before, rest)

def contains (mark cs : List Char) : Bool :=
  (cut mark cs).isSome

theorem after?_eq_some_iff {mark cs rest : List Char} :
    after? mark cs = some rest ↔ cs = mark ++ rest := by
  induction mark generalizing cs with
  | nil => simp [after?]
  | cons m ms ih =>
    cases cs with
    | nil => simp [after?]
    | cons c cs =>
      by_cases h : m = c
      · simp [after?, h, ih]
      · simp [after?, h, Ne.symm h]

/-- Cutting loses the mark only. -/
theorem eq_append_of_cut {mark cs before rest : List Char} (h : cut mark cs = some (before, rest)) :
    cs = before ++ mark ++ rest := by
  induction cs generalizing before with
  | nil =>
    simp only [cut, Option.map_eq_some_iff, Prod.mk.injEq] at h
    obtain ⟨r, hr, rfl, rfl⟩ := h
    simpa using after?_eq_some_iff.1 hr
  | cons c cs ih =>
    unfold cut at h
    split at h
    · next r hr =>
      cases h
      simpa using after?_eq_some_iff.1 hr
    · simp only [Option.map_eq_some_iff, Prod.mk.injEq] at h
      obtain ⟨⟨b, r⟩, hr, rfl, rfl⟩ := h
      simp [ih hr]

theorem length_of_cut {mark cs before rest : List Char} (h : cut mark cs = some (before, rest)) :
    before.length + mark.length + rest.length = cs.length := by
  simp [eq_append_of_cut h, Nat.add_assoc]

/-- Whether two texts differ at most in the case of ASCII letters. -/
def sameLetters (a b : List Char) : Bool :=
  a.map Char.toLower == b.map Char.toLower

/-- What follows `keyword` on a line that opens with it, trimmed. The keyword ends at a blank or
with the line. -/
def afterKeyword? (keyword line : List Char) : Option (List Char) :=
  let rest := line.drop keyword.length
  if sameLetters (line.take keyword.length) keyword && rest.head?.all isBlank then
    some (trim rest)
  else
    none

/-- Removes one carriage return from the end of a line. -/
def dropReturn (cs : List Char) : List Char :=
  if cs.getLast? = some '\r' then cs.dropLast else cs

/-- A line ends at a line feed, a carriage return before which belongs to the line's end. A line
feed at the very end of the text opens no further line. -/
def lines (cs : List Char) : List (List Char) :=
  match cs with
  | [] => []
  | c :: r =>
    match h : cut ['\n'] (c :: r) with
    | none => [c :: r]
    | some (line, rest) =>
      have := length_of_cut h
      dropReturn line :: lines rest
termination_by cs.length
decreasing_by
  simp only [List.length_cons, List.length_nil] at *
  omega

def byteSize (cs : List Char) : Nat :=
  cs.foldl (fun n c => n + c.utf8Size) 0

end Chartboard.Text
