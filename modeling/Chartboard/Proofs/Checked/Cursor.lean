import Chartboard.Flow.Statement
import Chartboard.Proofs.Text.Bytes
import Chartboard.Proofs.Text.Trimming

namespace Chartboard.Checked
open Chartboard.Text Chartboard.Flow

/-- A text and the place in it up to which it has been read. -/
structure Cursor where
  text : List Char
  place : Nat

namespace Cursor

def rest? (cur : Cursor) : Option (List Char) :=
  slice? cur.text cur.place (byteSize cur.text)

def advance (cur : Cursor) (count : Nat) : Cursor :=
  { cur with place := cur.place + count }

def atEnd (cur : Cursor) : Bool :=
  byteSize cur.text ≤ cur.place

def peek (cur : Cursor) : Option (Option Char) :=
  cur.rest?.map List.head?

def skipBlanks (cur : Cursor) : Option Cursor := do
  let rest ← cur.rest?
  let count ← minus? (byteSize rest) (byteSize (trimStart rest))
  return cur.advance count

/-- Goes behind a token that comes next. An outer `none` is a place or a difference that there is
not; what is merely not found is an inner one. -/
def eat (token : List Char) (cur : Cursor) : Option (Option Cursor) := do
  let rest ← cur.rest?
  if startsWith token rest then
    return some (cur.advance (byteSize token))
  else
    return none

def word (cur : Cursor) : Option (Option (List Char × Cursor)) := do
  let rest ← cur.rest?
  let count := ((places 0 rest).find? (!isWordChar ·.2)).elim (byteSize rest) (·.1)
  if count = 0 then
    return none
  else
    return some (← slice? rest 0 count, cur.advance count)

/-- Goes behind the next closer, and gives the text before it. -/
def takeUntil (closer : List Char) (cur : Cursor) : Option (Option (List Char × Cursor)) := do
  let rest ← cur.rest?
  match find? closer rest with
  | none => return none
  | some count => return some (← slice? rest 0 count, cur.advance (count + byteSize closer))

/-- The cursor that has read a text up to one of its ends. -/
def leaving (text rest : List Char) : Cursor :=
  ⟨text, byteSize text - byteSize rest⟩

variable {text rest : List Char}

@[simp] theorem leaving_self (text : List Char) : leaving text text = ⟨text, 0⟩ := by
  rw [leaving, Nat.sub_self]

theorem advance_leaving {part : List Char} (h : part ++ rest <:+ text) :
    (leaving text (part ++ rest)).advance (byteSize part) = leaving text rest := by
  have hle := byteSize_le_of_sublist h.sublist
  rw [byteSize_append] at hle
  simp only [leaving, advance, byteSize_append, mk.injEq, true_and]
  omega

theorem rest?_leaving (h : rest <:+ text) : (leaving text rest).rest? = some rest := by
  obtain ⟨before, rfl⟩ := h
  rw [rest?, leaving, byteSize_append, Nat.add_sub_cancel, ← byteSize_append]
  exact slice?_back before rest

theorem atEnd_leaving (h : rest <:+ text) : (leaving text rest).atEnd = rest.isEmpty := by
  have hle := byteSize_le_of_sublist h.sublist
  have hpos := length_le_byteSize rest
  cases rest with
  | nil => simp [atEnd, leaving]
  | cons c rest =>
    rw [List.length_cons] at hpos
    refine decide_eq_false ?_
    simp only [leaving]
    omega

theorem peek_leaving (h : rest <:+ text) : (leaving text rest).peek = some rest.head? := by
  rw [peek, rest?_leaving h, Option.map_some]

theorem skipBlanks_leaving (h : rest <:+ text) :
    (leaving text rest).skipBlanks = some (leaving text (trimStart rest)) := by
  obtain ⟨blanks, hb⟩ := trimStart_suffix rest
  have hadvance := advance_leaving (hb.symm ▸ h)
  rw [hb] at hadvance
  have hcount : minus? (byteSize rest) (byteSize (trimStart rest)) = some (byteSize blanks) := by
    conv => lhs; rw [← hb, byteSize_append, hb]
    exact minus?_add _ _
  simp [skipBlanks, rest?_leaving h, hcount, hadvance]

theorem eat_leaving (h : rest <:+ text) (token : List Char) :
    (leaving text rest).eat token = some ((after? token rest).map (leaving text)) := by
  rw [eat, rest?_leaving h]
  cases ha : after? token rest with
  | none => simp [startsWith, ha]
  | some after =>
    obtain rfl := after?_eq_some_iff.1 ha
    simp [startsWith, ha, advance_leaving h]

theorem find?_places (p : Char → Bool) (start : Nat) (cs : List Char) :
    ((places start cs).find? (!p ·.2)).elim (start + byteSize cs) (·.1) =
      start + byteSize (cs.takeWhile p) := by
  induction cs generalizing start with
  | nil => rfl
  | cons c cs ih =>
    rw [places]
    by_cases hp : p c = true
    · simp only [List.find?_cons, hp, Bool.not_true, byteSize_cons, List.takeWhile_cons, if_true]
      rw [← Nat.add_assoc, ih, Nat.add_assoc]
    · simp [hp]

theorem word_leaving (h : rest <:+ text) : (leaving text rest).word =
    some (if (rest.takeWhile isWordChar).isEmpty then none
      else some (rest.takeWhile isWordChar, leaving text (rest.dropWhile isWordChar))) := by
  have hcount := find?_places isWordChar 0 rest
  rw [Nat.zero_add, Nat.zero_add] at hcount
  have hrest := List.takeWhile_append_dropWhile (p := isWordChar) (l := rest)
  have hslice := slice?_front (rest.takeWhile isWordChar) (rest.dropWhile isWordChar)
  have hadvance := advance_leaving (hrest.symm ▸ h)
  rw [hrest] at hslice hadvance
  have hpos := length_le_byteSize (rest.takeWhile isWordChar)
  rw [word, rest?_leaving h]
  simp only [Option.bind_eq_bind, Option.bind_some, hcount, hslice, hadvance]
  cases hw : rest.takeWhile isWordChar with
  | nil => rfl
  | cons c cs =>
    rw [hw, List.length_cons] at hpos
    rw [if_neg (by omega)]
    rfl

theorem takeUntil_leaving (h : rest <:+ text) (closer : List Char) :
    (leaving text rest).takeUntil closer =
      some ((cut closer rest).map fun (inner, after) => (inner, leaving text after)) := by
  rw [takeUntil, rest?_leaving h]
  cases hc : cut closer rest with
  | none => simp [find?, hc]
  | some found =>
    obtain ⟨inner, after⟩ := found
    obtain rfl := eq_append_of_cut hc
    have hslice := slice?_front inner (closer ++ after)
    rw [← List.append_assoc] at hslice
    have hadvance := advance_leaving h
    rw [byteSize_append] at hadvance
    simp [-List.append_assoc, find?, hc, hslice, hadvance]

end Cursor

/-- What follows a keyword on a line that opens with it. -/
def stripKeyword (keyword line : List Char) : Option (Option (List Char)) :=
  match slice? line 0 (byteSize keyword) with
  | none => some none
  | some head =>
    if sameLetters head keyword then do
      let rest ← slice? line (byteSize keyword) (byteSize line)
      if rest.head?.all isBlank then
        return some (trim rest)
      else
        return none
    else
      some none

/-- The letters of a keyword take as many bytes as any spelling of it, so a keyword is found by its
bytes exactly where it is found by its characters. -/
theorem stripKeyword_eq (keyword line : List Char) :
    stripKeyword keyword line = some (afterKeyword? keyword line) := by
  rw [stripKeyword]
  by_cases hs : sameLetters (line.take keyword.length) keyword = true
  · have hfront := slice?_front (line.take keyword.length) (line.drop keyword.length)
    have hback := slice?_back (line.take keyword.length) (line.drop keyword.length)
    rw [List.take_append_drop, byteSize_of_sameLetters hs] at hfront hback
    simp only [hfront, hs, if_true, hback, afterKeyword?, Bool.true_and, Option.bind_eq_bind,
      Option.bind_some, Option.pure_def]
    exact (apply_ite some _ _ _).symm
  · have hnone : afterKeyword? keyword line = none := by simp [afterKeyword?, hs]
    rw [hnone]
    cases hslice : slice? line 0 (byteSize keyword) with
    | none => rfl
    | some head =>
      obtain ⟨before, after, rfl, hzero, -⟩ := slice?_eq_some_iff.1 hslice
      have hempty := length_le_byteSize before
      rw [hzero, Nat.le_zero, List.length_eq_zero_iff] at hempty
      subst hempty
      have hhead : sameLetters head keyword ≠ true := by
        intro hh
        refine hs ?_
        rwa [List.nil_append, List.take_left' (length_of_sameLetters hh)]
      exact if_neg hhead

end Chartboard.Checked
