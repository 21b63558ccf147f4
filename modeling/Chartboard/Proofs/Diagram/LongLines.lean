import Chartboard.Proofs.Diagram.Rows
import Chartboard.Proofs.Text.Bytes
import Chartboard.Proofs.Text.TrimmedLines

namespace Chartboard
open Text

variable {text row : List Char} {rows : List (List Char)} {number size place : Nat}

/-- The line of a text that is refused for its length, by its number among the lines from the first
that is not blank. None of those before it is too long, but the first of them is measured without
the blanks in front of it. -/
structure LongLine (rows : List (List Char)) (number size : Nat) : Prop where
  counted : 0 < number
  long : limits.lineBytes < size
  row : ∃ row, rows[skipped rows + number - 1]? = some row ∧ limits.lineBytes < byteSize row ∧
    byteSize (trimmedLine rows (skipped rows + number - 1) row) = size
  first : 1 < number → ∀ row ∈ rows[skipped rows]?, byteSize (trimStart row) ≤ limits.lineBytes
  between : ∀ {place row}, skipped rows < place → place + 1 < skipped rows + number →
    rows[place]? = some row → byteSize row ≤ limits.lineBytes

theorem longLine?_eq_some_iff : longLine? rows = some (number, size) ↔
    ∃ place row, number = 1 + place ∧ rows[place]? = some row ∧ byteSize row = size ∧
      limits.lineBytes < size ∧ ∀ before < place, ∀ row ∈ rows[before]?,
        byteSize row ≤ limits.lineBytes := by
  unfold longLine?
  -- Behind every line that is short the numbers start one later.
  generalize 1 = start
  induction rows generalizing start with
  | nil => simp
  | cons row rows ih =>
    rw [List.map_cons, List.zipIdx_cons, List.findSome?_cons]
    by_cases hlong : limits.lineBytes < byteSize row
    · simp only [hlong, if_true, Option.some.injEq, Prod.mk.injEq]
      constructor
      · rintro ⟨rfl, rfl⟩
        exact ⟨0, row, rfl, rfl, rfl, hlong, nofun⟩
      · rintro ⟨place, r, rfl, hr, rfl, -, hbefore⟩
        cases place with
        | zero =>
          cases hr
          exact ⟨rfl, rfl⟩
        | succ place => exact absurd (hbefore 0 place.succ_pos row rfl) (Nat.not_le.2 hlong)
    · simp only [hlong, if_false, ih]
      constructor
      · rintro ⟨place, r, rfl, hr, hsize, hlimit, hbefore⟩
        refine ⟨place + 1, r, by omega, hr, hsize, hlimit, fun before hb r hm => ?_⟩
        cases before with
        | zero =>
          cases hm
          exact Nat.not_lt.1 hlong
        | succ before => exact hbefore before (Nat.lt_of_succ_lt_succ hb) r hm
      · rintro ⟨place, r, rfl, hr, hsize, hlimit, hbefore⟩
        cases place with
        | zero =>
          cases hr
          exact absurd (hsize ▸ hlimit) hlong
        | succ place =>
          exact ⟨place, r, by omega, hr, hsize, hlimit,
            fun before hb => hbefore (before + 1) (Nat.succ_lt_succ hb)⟩

theorem trimmedLine_sublist (rows : List (List Char)) (place : Nat) (row : List Char) :
    (trimmedLine rows place row).Sublist row := by
  have hstart : (if place = skipped rows then trimStart row else row).Sublist row := by
    split
    · exact (trimStart_suffix row).sublist
    · exact .refl row
  by_cases hv : (rows.drop (place + 1)).all isVoid = true
  · rw [trimmedLine, if_pos hv]
    exact (dropEndWhile_sublist isBlank _).trans hstart
  · rwa [trimmedLine, if_neg hv]

theorem trimmedLine_eq_nil (h : (rows.drop place).all isVoid = true)
    (hr : rows[place]? = some row) : trimmedLine rows place row = [] := by
  obtain ⟨hlt, rfl⟩ := List.getElem?_eq_some_iff.1 hr
  rw [List.drop_eq_getElem_cons hlt, List.all_cons, Bool.and_eq_true] at h
  rw [trimmedLine, if_pos h.2, trimEnd_eq_nil_iff]
  split
  · rw [isVoid_trimStart, h.1]
  · exact h.1

/-- In front of a line that trimming leaves, only the first line loses blanks. -/
theorem getElem?_lines_trim_before {before : Nat}
    (h : ((lines text).drop (skipped (lines text) + place)).all isVoid = false)
    (hb : before < place) : (lines (trim text))[before]? =
      (lines text)[skipped (lines text) + before]?.map fun row =>
        if before = 0 then trimStart row else row := by
  have hvoid : ∀ k ≤ skipped (lines text) + place, ((lines text).drop k).all isVoid = false := by
    intro k hk
    obtain ⟨more, hmore⟩ := Nat.exists_eq_add_of_le hk
    rw [← Bool.not_eq_true] at h ⊢
    intro hall
    refine h (List.all_eq_true.2 fun row hr => List.all_eq_true.1 hall row ?_)
    rw [hmore, ← List.drop_drop] at hr
    exact List.mem_of_mem_drop hr
  rw [getElem?_lines_trim, hvoid _ (by omega), if_neg Bool.false_ne_true]
  refine Option.map_congr fun row _ => ?_
  simp [trimmedLine, hvoid _ (show skipped (lines text) + before + 1 ≤ _ by omega)]

/-- The lines in front of the long one by how far they are from the first. -/
theorem longLine_iff : LongLine rows (1 + place) size ↔ limits.lineBytes < size ∧
    (∃ row, rows[skipped rows + place]? = some row ∧
      byteSize (trimmedLine rows (skipped rows + place) row) = size) ∧
    ∀ before < place, ∀ row ∈ rows[skipped rows + before]?,
      byteSize (if before = 0 then trimStart row else row) ≤ limits.lineBytes := by
  have hplace : skipped rows + (1 + place) - 1 = skipped rows + place := by omega
  constructor
  · rintro ⟨-, hlong, ⟨row, hrow, -, hsize⟩, hfirst, hbetween⟩
    rw [hplace] at hrow hsize
    refine ⟨hlong, ⟨row, hrow, hsize⟩, fun before hb r hr => ?_⟩
    cases before with
    | zero => exact hfirst (by omega) r hr
    | succ before => exact hbetween (by omega) (by omega) hr
  · rintro ⟨hlong, ⟨row, hrow, rfl⟩, hbefore⟩
    have hrest := byteSize_le_of_sublist (trimmedLine_sublist rows (skipped rows + place) row)
    refine ⟨by omega, hlong, ⟨row, hplace ▸ hrow, hlong.trans_le hrest, by rw [hplace]⟩, ?_, ?_⟩
    · intro hnumber r hr
      exact hbefore 0 (by omega) r hr
    · intro k r hk hle hr
      obtain ⟨before, rfl⟩ := Nat.exists_eq_add_of_lt hk
      exact hbefore (before + 1) (by omega) r hr

theorem longLine?_lines_trim_iff (text : List Char) :
    longLine? (lines (trim text)) = some (number, size) ↔ LongLine (lines text) number size := by
  rw [longLine?_eq_some_iff]
  constructor
  · rintro ⟨place, line, rfl, hline, rfl, hlong, hbefore⟩
    rw [getElem?_lines_trim] at hline
    split at hline
    · cases hline
    next hvoid =>
    rw [Bool.not_eq_true] at hvoid
    obtain ⟨row, hrow, rfl⟩ := Option.map_eq_some_iff.1 hline
    refine longLine_iff.2 ⟨hlong, ⟨row, hrow, rfl⟩, fun before hb r hr => hbefore before hb _ ?_⟩
    rw [getElem?_lines_trim_before hvoid hb, Option.mem_def.1 hr, Option.map_some]
    rfl
  · intro h
    obtain ⟨place, rfl⟩ := Nat.exists_eq_add_of_le h.counted
    obtain ⟨hlong, ⟨row, hrow, rfl⟩, hbefore⟩ := longLine_iff.1 h
    have hvoid : ((lines text).drop (skipped (lines text) + place)).all isVoid = false := by
      rw [← Bool.not_eq_true]
      intro hv
      rw [trimmedLine_eq_nil hv hrow] at hlong
      exact Nat.not_lt_zero _ hlong
    have hline : (lines (trim text))[place]? =
        some (trimmedLine (lines text) (skipped (lines text) + place) row) := by
      rw [getElem?_lines_trim, hvoid, if_neg Bool.false_ne_true, hrow, Option.map_some]
    refine ⟨place, _, by omega, hline, rfl, hlong, fun before hb r hr => ?_⟩
    rw [getElem?_lines_trim_before hvoid hb] at hr
    obtain ⟨r, hm, rfl⟩ := Option.map_eq_some_iff.1 hr
    exact hbefore before hb r hm

theorem Diagram.read_eq_lineTooLong_iff : Diagram.read text = .error (.lineTooLong number size) ↔
    byteSize text ≤ limits.bytes ∧ (lines (trim text)).length ≤ limits.lines ∧
      LongLine (lines text) number size := by
  rw [← longLine?_lines_trim_iff]
  unfold Diagram.read Diagram.ofText
  by_cases hsize : limits.bytes < byteSize text
  · simp [hsize, Nat.not_le.2 hsize]
  by_cases hempty : trim text = []
  · simp [hsize, hempty, lines, longLine?]
  by_cases hcount : limits.lines < (lines (trim text)).length
  · simp [hsize, hempty, hcount, Nat.not_le.2 hcount]
  cases hlong : longLine? (lines (trim text)) with
  | some found =>
    simp [hsize, hempty, hcount, hlong, Nat.not_lt.1 hsize, Nat.not_lt.1 hcount, Prod.ext_iff]
  | none =>
    -- What is left to be refused is the header.
    simp only [hsize, hempty, hcount, hlong, List.isEmpty_iff, if_false, reduceCtorEq, and_false,
      iff_false]
    split <;> simp

/-- Beyond its size a text is judged only as it is trimmed. -/
theorem Diagram.read_congr {more : List Char} (h : trim text = trim more)
    (ht : byteSize text ≤ limits.bytes) (hm : byteSize more ≤ limits.bytes) :
    Diagram.read text = Diagram.read more := by
  simp only [Diagram.read, Diagram.ofText, h, if_neg (Nat.not_lt.2 ht), if_neg (Nat.not_lt.2 hm)]

def behind (rows : List (List Char)) (text : List Char) : List Char :=
  rows.flatMap (· ++ ['\n']) ++ text

theorem lines_behind (h : ∀ row ∈ rows, '\n' ∉ row) (text : List Char) :
    lines (behind rows text) = rows.map dropReturn ++ lines text := by
  induction rows with
  | nil => rfl
  | cons row rows ih =>
    rw [List.forall_mem_cons] at h
    have he : behind (row :: rows) text = row ++ '\n' :: behind rows text := by
      simp [behind]
    rw [he, lines_append_feed h.1, ih h.2, List.map_cons, List.cons_append]

theorem skipped_behind (h : ∀ row ∈ rows, isVoid row = true ∧ '\n' ∉ row) (text : List Char) :
    skipped (lines (behind rows text)) = rows.length + skipped (lines text) := by
  have hvoid : ∀ row ∈ rows.map dropReturn, isVoid row = true := by
    intro row hr
    obtain ⟨r, hm, rfl⟩ := List.mem_map.1 hr
    rw [isVoid_dropReturn, (h r hm).1]
  rw [lines_behind fun row hr => (h row hr).2, skipped, List.takeWhile_append_of_pos hvoid,
    List.length_append, List.length_map, skipped]

theorem Diagram.read_behind (h : ∀ row ∈ rows, isVoid row = true)
    (hsize : byteSize (behind rows text) ≤ limits.bytes) :
    Diagram.read (behind rows text) = Diagram.read text := by
  have hblank : ∀ c ∈ rows.flatMap (· ++ ['\n']), isBlank c = true := by
    intro c hc
    obtain ⟨row, hr, hm⟩ := List.mem_flatMap.1 hc
    have hv : isVoid (row ++ ['\n']) = true := by
      rw [isVoid_append, h row hr]
      decide
    exact isVoid_iff.1 hv c hm
  have hle : byteSize text ≤ limits.bytes := by
    rw [behind, byteSize_append] at hsize
    omega
  exact Diagram.read_congr (trim_append_of_blank hblank text) hsize hle

/-- A text is refused for the first of its lines that is too long as trimming leaves it. Its number
is the one in the text only if no blank line comes first: blank lines in front of a text add to the
lines that are not counted, and change nothing in how it is read. -/
theorem long_lines_counted_from_first_said (text : List Char) :
    (Diagram.read text = .error (.lineTooLong number size) ↔
      byteSize text ≤ limits.bytes ∧ (lines (trim text)).length ≤ limits.lines ∧
        LongLine (lines text) number size) ∧
    ∀ rows : List (List Char), (∀ row ∈ rows, isVoid row = true ∧ '\n' ∉ row) →
      byteSize (behind rows text) ≤ limits.bytes →
        Diagram.read (behind rows text) = Diagram.read text ∧
          skipped (lines (behind rows text)) = rows.length + skipped (lines text) :=
  ⟨Diagram.read_eq_lineTooLong_iff, fun _ h hsize =>
    ⟨Diagram.read_behind (fun row hr => (h row hr).1) hsize, skipped_behind h text⟩⟩

/-- A flowchart with a long second line. -/
def sprawling : List Char :=
  "flowchart TB\nA[".toList ++ List.replicate 2000 'x' ++ "]".toList

theorem read_sprawling : Diagram.read sprawling = .error (.lineTooLong 2 2003) := by
  decide +kernel

/-- Behind two blank lines the second line is the fourth. -/
theorem sprawling_counted : isVoid "\t\r".toList = true ∧
    byteSize (behind [[], "\t\r".toList] sprawling) ≤ limits.bytes ∧
    LongLine (lines sprawling) 2 2003 ∧
    Diagram.read (behind [[], "\t\r".toList] sprawling) = .error (.lineTooLong 2 2003) ∧
    skipped (lines (behind [[], "\t\r".toList] sprawling)) = 2 := by
  have hsize : byteSize (behind [[], "\t\r".toList] sprawling) ≤ limits.bytes := by decide +kernel
  obtain ⟨hiff, hbehind⟩ := long_lines_counted_from_first_said sprawling
  obtain ⟨hread, hskipped⟩ := hbehind [[], "\t\r".toList] (by decide) hsize
  have hnone : skipped (lines sprawling) = 0 := by decide +kernel
  exact ⟨by decide, hsize, (hiff.1 read_sprawling).2.2, hread.trans read_sprawling, by
    rw [hskipped, hnone]
    rfl⟩

/-- Behind a blank line the number of the long line is that of a short one, and a first line with
blanks in front of it may be too long itself. -/
theorem sprawling_misnumbered :
    Diagram.read (behind [[]] sprawling) = .error (.lineTooLong 2 2003) ∧
    (lines (behind [[]] sprawling))[2 - 1]? = some "flowchart TB".toList ∧
    byteSize "flowchart TB".toList ≤ limits.lineBytes ∧
    Diagram.read sprawling = .error (.lineTooLong 2 2003) ∧
    Diagram.read (List.replicate 1990 ' ' ++ sprawling) = .error (.lineTooLong 2 2003) ∧
    ∃ row, (lines (List.replicate 1990 ' ' ++ sprawling))[1 - 1]? = some row ∧
      isVoid row = false ∧ limits.lineBytes < byteSize row := by
  have hblank : Diagram.read (behind [[]] sprawling) = Diagram.read sprawling :=
    Diagram.read_behind (by decide) (by decide +kernel)
  have hindented : Diagram.read (List.replicate 1990 ' ' ++ sprawling) = Diagram.read sprawling := by
    refine Diagram.read_congr (trim_append_of_blank ?_ sprawling) (by decide +kernel)
      (by decide +kernel)
    intro c hc
    rw [List.eq_of_mem_replicate hc]
    decide
  exact ⟨hblank.trans read_sprawling, by decide +kernel, by decide, read_sprawling,
    hindented.trans read_sprawling, List.replicate 1990 ' ' ++ "flowchart TB".toList,
    by decide +kernel, by decide +kernel, by decide +kernel⟩

end Chartboard
