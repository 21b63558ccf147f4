import Chartboard.Proofs.Text.Cutting
import Chartboard.Text.Search
import Mathlib.Data.List.TakeWhile

namespace Chartboard.Text

variable {cs row : List Char} {rows : List (List Char)}

def isVoid (row : List Char) : Bool :=
  row.all isBlank

theorem isVoid_iff : isVoid row = true ↔ ∀ c ∈ row, isBlank c = true :=
  List.all_eq_true

@[simp] theorem isVoid_append (row rest : List Char) :
    isVoid (row ++ rest) = (isVoid row && isVoid rest) :=
  List.all_append

@[simp] theorem isVoid_cons (c : Char) (row : List Char) :
    isVoid (c :: row) = (isBlank c && isVoid row) :=
  List.all_cons

theorem trimStart_eq_nil_iff : trimStart row = [] ↔ isVoid row = true := by
  rw [trimStart, List.dropWhile_eq_nil_iff, isVoid_iff]

theorem trimEnd_eq_nil_iff : trimEnd row = [] ↔ isVoid row = true := by
  rw [trimEnd, dropEndWhile, List.reverse_eq_nil_iff, List.dropWhile_eq_nil_iff, isVoid_iff]
  simp only [List.mem_reverse]

@[simp] theorem isVoid_trimStart (row : List Char) : isVoid (trimStart row) = isVoid row := by
  obtain ⟨blanks, hb, he⟩ := exists_leading_blanks row
  calc isVoid (trimStart row)
      = isVoid (blanks ++ trimStart row) := by rw [isVoid_append, isVoid_iff.2 hb, Bool.true_and]
    _ = isVoid row := by rw [he]

theorem trimStart_append (h : isVoid row = false) (rest : List Char) :
    trimStart (row ++ rest) = trimStart row ++ rest := by
  have hne : ¬ (row.dropWhile isBlank).isEmpty = true := by
    rw [List.isEmpty_iff, ← trimStart, trimStart_eq_nil_iff, h]
    exact Bool.false_ne_true
  rw [trimStart, List.dropWhile_append, if_neg hne, trimStart]

theorem dropReturn_append_return (row : List Char) : dropReturn (row ++ ['\r']) = row := by
  simp [dropReturn]

theorem dropReturn_cases (row : List Char) : dropReturn row = row ∧ row.getLast? ≠ some '\r' ∨
    ∃ front, row = front ++ ['\r'] := by
  by_cases h : row.getLast? = some '\r'
  · exact .inr (List.getLast?_eq_some_iff.1 h)
  · exact .inl ⟨if_neg h, h⟩

@[simp] theorem isVoid_dropReturn (row : List Char) : isVoid (dropReturn row) = isVoid row := by
  rcases dropReturn_cases row with ⟨h, -⟩ | ⟨front, rfl⟩
  · rw [h]
  · have hreturn : isVoid ['\r'] = true := by decide
    rw [dropReturn_append_return, isVoid_append, hreturn, Bool.and_true]

theorem trimEnd_dropReturn (row : List Char) : trimEnd (dropReturn row) = trimEnd row := by
  rcases dropReturn_cases row with ⟨h, -⟩ | ⟨front, rfl⟩
  · rw [h]
  · rw [dropReturn_append_return, trimEnd_append_blank (by decide)]

theorem dropReturn_trimStart (h : isVoid row = false) :
    dropReturn (trimStart row) = trimStart (dropReturn row) := by
  rcases dropReturn_cases row with ⟨he, hl⟩ | ⟨front, rfl⟩
  · obtain ⟨before, hb⟩ := trimStart_suffix row
    have hne : trimStart row ≠ [] := by simp [trimStart_eq_nil_iff, h]
    have hlast : row.getLast? = (trimStart row).getLast? := by
      rw [← hb, List.getLast?_append, hb, List.getLast?_eq_some_getLast hne, Option.some_or]
    rw [he, dropReturn, ← hlast, if_neg hl]
  · have hfront : isVoid front = false := by
      simpa [isVoid, show isBlank '\r' = true by decide] using h
    rw [trimStart_append hfront, dropReturn_append_return, dropReturn_append_return]

theorem lines_of_unbroken (h : '\n' ∉ cs) : lines cs = if cs = [] then [] else [cs] := by
  cases cs with
  | nil => simp [lines]
  | cons c r =>
    rw [lines, if_neg (List.cons_ne_nil c r)]
    split
    · rfl
    · next hc => exact absurd (cut_char_eq_some_iff.1 hc).2 fun he => h (by simp [he])

theorem lines_append_feed (h : '\n' ∉ row) (rest : List Char) :
    lines (row ++ '\n' :: rest) = dropReturn row :: lines rest := by
  have hc := cut_char h rest
  obtain ⟨c, r, he⟩ : ∃ c r, row ++ '\n' :: rest = c :: r :=
    List.exists_cons_of_ne_nil (by simp)
  rw [he] at hc ⊢
  rw [lines]
  split
  · next hn =>
    rw [hc] at hn
    cases hn
  · next hs =>
    rw [hc] at hs
    cases hs
    rfl

theorem all_isVoid_lines (cs : List Char) : (lines cs).all isVoid = isVoid cs := by
  fun_induction lines cs with
  | case1 => rfl
  | case2 => simp
  | case3 c r line rest h _ ih =>
    have hfeed : isBlank '\n' = true := by decide
    rw [(cut_char_eq_some_iff.1 h).2, List.all_cons, ih, isVoid_dropReturn, isVoid_append,
      isVoid_cons, hfeed, Bool.true_and]

theorem lines_trimStart (cs : List Char) :
    lines (trimStart cs) = ((lines cs).dropWhile isVoid).modifyHead trimStart := by
  have hunbroken : ∀ {row : List Char}, '\n' ∉ row → '\n' ∉ trimStart row :=
    fun hn hm => hn ((trimStart_suffix _).subset hm)
  fun_induction lines cs with
  | case1 => simp [trimStart, lines]
  | case2 c r h =>
    rw [lines_of_unbroken (hunbroken (cut_char_eq_none_iff.1 h)), List.dropWhile_cons]
    by_cases hv : isVoid (c :: r) = true
    · rw [if_pos (trimStart_eq_nil_iff.2 hv), if_pos hv]
      rfl
    · rw [if_neg fun he => hv (trimStart_eq_nil_iff.1 he), if_neg hv]
      rfl
  | case3 c r line rest h _ ih =>
    obtain ⟨hn, he⟩ := cut_char_eq_some_iff.1 h
    rw [he, List.dropWhile_cons, isVoid_dropReturn]
    by_cases hv : isVoid line = true
    · -- The line goes with its line feed, and the search for the first line goes on behind it.
      have hblank : isVoid (line ++ ['\n']) = true := by
        rw [isVoid_append, hv]
        decide
      rw [if_pos hv, List.append_cons, trimStart_append_of_blank (isVoid_iff.1 hblank), ih]
    · rw [Bool.not_eq_true] at hv
      rw [trimStart_append hv, lines_append_feed (hunbroken hn), dropReturn_trimStart hv, hv]
      rfl

/-- Lines up to the last one that is not blank, and that one without the blanks behind it. -/
def cropEnd : List (List Char) → List (List Char)
  | [] => []
  | row :: rows =>
    if rows.all isVoid then
      if isVoid row then [] else [trimEnd row]
    else
      row :: cropEnd rows

theorem lines_trimEnd (cs : List Char) : lines (trimEnd cs) = cropEnd (lines cs) := by
  have hlast : ∀ {row : List Char}, '\n' ∉ row →
      lines (trimEnd row) = if isVoid row then [] else [trimEnd row] := by
    intro row hn
    have hfront := trimEnd_prefix row
    have hunbroken : '\n' ∉ trimEnd row := fun hm => hn (hfront.subset hm)
    simp only [lines_of_unbroken hunbroken, trimEnd_eq_nil_iff]
  fun_induction lines cs with
  | case1 => simp [trimEnd, dropEndWhile, lines, cropEnd]
  | case2 c r h => exact hlast (cut_char_eq_none_iff.1 h)
  | case3 c r line rest h _ ih =>
    obtain ⟨hn, he⟩ := cut_char_eq_some_iff.1 h
    rw [he, cropEnd, all_isVoid_lines, isVoid_dropReturn, trimEnd_dropReturn]
    by_cases hv : isVoid rest = true
    · -- Trimming takes the line feed as well, so that what is left may have no line at all.
      have hblank : isVoid ('\n' :: rest) = true := by
        rw [isVoid_cons, hv]
        decide
      rw [if_pos hv, trimEnd, dropEndWhile_append_of_pos (isVoid_iff.1 hblank), ← trimEnd,
        hlast hn]
    · have hne : dropEndWhile isBlank rest ≠ [] := fun hr => hv (trimEnd_eq_nil_iff.1 hr)
      rw [if_neg hv, List.append_cons, trimEnd, dropEndWhile_append hne, ← trimEnd,
        ← List.append_cons, lines_append_feed hn, ih]

theorem getElem?_cropEnd (rows : List (List Char)) (place : Nat) : (cropEnd rows)[place]? =
    if (rows.drop place).all isVoid then none
    else rows[place]?.map fun row =>
      if (rows.drop (place + 1)).all isVoid then trimEnd row else row := by
  induction rows generalizing place with
  | nil => simp [cropEnd]
  | cons row rows ih =>
    rw [cropEnd]
    cases place with
    | zero =>
      by_cases hv : rows.all isVoid = true
      · by_cases hr : isVoid row = true <;> simp [hv, hr]
      · simp [hv]
    | succ place =>
      by_cases hv : rows.all isVoid = true
      · have hdrop : (rows.drop place).all isVoid = true :=
          List.all_eq_true.2 fun r hr => List.all_eq_true.1 hv r (List.mem_of_mem_drop hr)
        by_cases hr : isVoid row = true <;> simp [hv, hr, hdrop]
      · simp [hv, ih]

/-- How many lines there are before the first that is not blank. -/
def skipped (rows : List (List Char)) : Nat :=
  (rows.takeWhile isVoid).length

theorem drop_skipped (rows : List (List Char)) :
    rows.drop (skipped rows) = rows.dropWhile isVoid := by
  calc rows.drop (skipped rows)
      = (rows.takeWhile isVoid ++ rows.dropWhile isVoid).drop (skipped rows) := by
        rw [List.takeWhile_append_dropWhile]
    _ = rows.dropWhile isVoid := List.drop_left' rfl

/-- What trimming the text leaves of one of its lines. -/
def trimmedLine (rows : List (List Char)) (place : Nat) (row : List Char) : List Char :=
  let line := if place = skipped rows then trimStart row else row
  if (rows.drop (place + 1)).all isVoid then trimEnd line else line

theorem all_drop_modifyHead (rows : List (List Char)) (place : Nat) :
    ((rows.modifyHead trimStart).drop place).all isVoid = (rows.drop place).all isVoid := by
  cases rows with
  | nil => rfl
  | cons row rows =>
    cases place with
    | zero => simp
    | succ place => rfl

theorem getElem?_lines_trim (cs : List Char) (place : Nat) : (lines (trim cs))[place]? =
    if ((lines cs).drop (skipped (lines cs) + place)).all isVoid then none
    else (lines cs)[skipped (lines cs) + place]?.map
      (trimmedLine (lines cs) (skipped (lines cs) + place)) := by
  rw [trim, lines_trimEnd, lines_trimStart, ← drop_skipped, getElem?_cropEnd]
  simp only [all_drop_modifyHead, List.getElem?_modifyHead, List.getElem?_drop, List.drop_drop]
  refine ite_congr rfl (fun _ => rfl) fun _ => ?_
  cases place with
  | zero =>
    rw [if_pos rfl, Option.map_map]
    exact Option.map_congr fun row _ => by simp [trimmedLine]
  | succ place =>
    rw [if_neg (Nat.succ_ne_zero place)]
    exact Option.map_congr fun row _ => by simp [trimmedLine, Nat.add_assoc]

end Chartboard.Text
