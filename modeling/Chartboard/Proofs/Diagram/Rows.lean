import Chartboard.Diagram.Reader
import Chartboard.Proofs.Text.Cutting
import Chartboard.Proofs.Text.Trimming

namespace Chartboard
open Text

variable {cs text row first : List Char} {rows body : List (List Char)}

theorem trim_dropReturn (cs : List Char) : trim (dropReturn cs) = trim cs := by
  unfold dropReturn
  split
  · next h =>
    obtain ⟨r, rfl⟩ := List.getLast?_eq_some_iff.1 h
    rw [List.dropLast_concat, trim_append_blank (by decide)]
  · rfl

theorem meaningfulLines_append (rows more : List (List Char)) :
    meaningfulLines (rows ++ more) = meaningfulLines rows ++ meaningfulLines more := by
  simp [meaningfulLines]

/-- A line counts only as far as it is trimmed. -/
theorem meaningfulLines_congr {rows more : List (List Char)} (h : rows.map trim = more.map trim) :
    meaningfulLines rows = meaningfulLines more := by
  rw [meaningfulLines, h, meaningfulLines]

@[simp] theorem meaningfulLines_cons_nil (rows : List (List Char)) :
    meaningfulLines ([] :: rows) = meaningfulLines rows := by
  simp [meaningfulLines]

theorem meaningfulLines_lines (cs : List Char) :
    meaningfulLines (lines cs) = meaningfulLines (cs.splitOn '\n') := by
  fun_induction lines cs with
  | case1 => simp [meaningfulLines]
  | case2 c r h => rw [List.splitOn_eq_singleton (cut_char_eq_none_iff.1 h)]
  | case3 c r line rest h hl ih =>
    obtain ⟨hn, he⟩ := cut_char_eq_some_iff.1 h
    rw [he, List.splitOn_append_cons_self_of_not_mem hn, ← List.singleton_append,
      meaningfulLines_append, ih, ← meaningfulLines_append]
    exact meaningfulLines_congr (by simp [trim_dropReturn])

theorem splitOn_append_char {c : Char} (h : c ≠ '\n') (cs : List Char) :
    ∃ before last, cs.splitOn '\n' = before ++ [last] ∧
      (cs ++ [c]).splitOn '\n' = before ++ [last ++ [c]] := by
  induction cs with
  | nil => exact ⟨[], [], by simp, by simp [List.splitOn_cons_eq_if_modifyHead, h]⟩
  | cons d cs ih =>
    obtain ⟨before, last, hb, ha⟩ := ih
    by_cases hd : d = '\n'
    · exact ⟨[] :: before, last, by simp [List.splitOn_cons_eq_if_modifyHead, hd, hb],
        by simp [List.splitOn_cons_eq_if_modifyHead, hd, ha]⟩
    · cases before with
      | nil =>
        exact ⟨[], d :: last, by simp [List.splitOn_cons_eq_if_modifyHead, hd, hb],
          by simp [List.splitOn_cons_eq_if_modifyHead, hd, ha]⟩
      | cons b before =>
        exact ⟨(d :: b) :: before, last, by simp [List.splitOn_cons_eq_if_modifyHead, hd, hb],
          by simp [List.splitOn_cons_eq_if_modifyHead, hd, ha]⟩

theorem meaningfulLines_append_blank {c : Char} (hc : isBlank c = true) (cs : List Char) :
    meaningfulLines ((cs ++ [c]).splitOn '\n') = meaningfulLines (cs.splitOn '\n') := by
  by_cases h : c = '\n'
  · rw [h, List.splitOn_append_cons_self, meaningfulLines_append]
    simp [meaningfulLines]
  · obtain ⟨before, last, hb, ha⟩ := splitOn_append_char h cs
    rw [hb, ha]
    exact meaningfulLines_congr (by simp [trim_append_blank hc])

theorem meaningfulLines_cons_blank {c : Char} (hc : isBlank c = true) (cs : List Char) :
    meaningfulLines ((c :: cs).splitOn '\n') = meaningfulLines (cs.splitOn '\n') := by
  rw [List.splitOn_cons_eq_if_modifyHead]
  split
  · exact meaningfulLines_cons_nil _
  · cases cs.splitOn '\n' with
    | nil => rfl
    | cons row rows => exact meaningfulLines_congr (by simp [trim_cons_blank hc])

theorem meaningfulLines_append_blanks {blanks : List Char} (hb : ∀ c ∈ blanks, isBlank c = true)
    (cs : List Char) :
    meaningfulLines ((cs ++ blanks).splitOn '\n') = meaningfulLines (cs.splitOn '\n') := by
  induction blanks generalizing cs with
  | nil => rw [List.append_nil]
  | cons c blanks ih =>
    rw [List.append_cons, ih (fun d hd => hb d (List.mem_cons_of_mem c hd)),
      meaningfulLines_append_blank (hb c List.mem_cons_self)]

theorem meaningfulLines_trimStart (cs : List Char) :
    meaningfulLines ((trimStart cs).splitOn '\n') = meaningfulLines (cs.splitOn '\n') := by
  induction cs with
  | nil => rfl
  | cons c cs ih =>
    cases hc : isBlank c with
    | true => rw [trimStart_cons_blank hc, ih, meaningfulLines_cons_blank hc]
    | false => rw [trimStart_eq_self (by simp [hc])]

theorem meaningfulLines_trim (cs : List Char) :
    meaningfulLines ((trim cs).splitOn '\n') = meaningfulLines (cs.splitOn '\n') := by
  obtain ⟨blanks, hb, he⟩ := exists_blanks (trimStart cs)
  calc meaningfulLines ((trim cs).splitOn '\n')
      = meaningfulLines ((trimEnd (trimStart cs) ++ blanks).splitOn '\n') :=
        (meaningfulLines_append_blanks hb _).symm
    _ = meaningfulLines ((trimStart cs).splitOn '\n') := by rw [he]
    _ = meaningfulLines (cs.splitOn '\n') := meaningfulLines_trimStart cs

/-- What the limits ask of a text: its size, and the number and the sizes of its lines once it is
trimmed. -/
structure WithinLimits (text : List Char) : Prop where
  size : byteSize text ≤ limits.bytes
  count : (lines (trim text)).length ≤ limits.lines
  sizes : ∀ line ∈ lines (trim text), byteSize line ≤ limits.lineBytes

theorem longLine?_eq_none_iff :
    longLine? rows = none ↔ ∀ row ∈ rows, byteSize row ≤ limits.lineBytes := by
  rw [longLine?, List.findSome?_eq_none_iff]
  constructor
  · intro h row hr
    obtain ⟨place, hp⟩ := List.mem_iff_getElem?.1 (List.mem_map_of_mem (f := byteSize) hr)
    have hm : (byteSize row, place + 1) ∈ (rows.map byteSize).zipIdx 1 := by
      rw [List.mem_zipIdx_iff_le_and_getElem?_sub]
      exact ⟨by omega, by simpa using hp⟩
    have hn : (if limits.lineBytes < byteSize row then some (place + 1, byteSize row) else none) =
        none := h _ hm
    refine Nat.le_of_not_lt fun hlt => ?_
    rw [if_pos hlt] at hn
    cases hn
  · rintro h ⟨length, number⟩ hx
    obtain ⟨row, hr, rfl⟩ := List.mem_map.1 (List.fst_mem_of_mem_zipIdx hx)
    exact if_neg (Nat.not_lt.2 (h row hr))

/-- A text within the limits is read by its first line that says something and those after it. -/
theorem Diagram.read_eq_ok {header : Header} (hl : WithinLimits text)
    (hm : meaningfulLines (text.splitOn '\n') = first :: body)
    (hh : Header.read? first = some header) : Diagram.read text = .ok (.ofLines header body) := by
  have hs : meaningfulLines (lines (trim text)) = first :: body := by
    rw [meaningfulLines_lines, meaningfulLines_trim, hm]
  have hne : (trim text).isEmpty = false := by
    cases ht : trim text with
    | nil => simp [ht, lines, meaningfulLines] at hs
    | cons => rfl
  simp [Diagram.read, Diagram.ofText, Nat.not_lt.2 hl.size, hne, Nat.not_lt.2 hl.count,
    longLine?_eq_none_iff.2 hl.sizes, hs, hh]

/-- What rows draw, if they have a header. -/
def drawn? (rows : List (List Char)) : Option Diagram :=
  match meaningfulLines rows with
  | [] => none
  | first :: body => (Header.read? first).map (.ofLines · body)

/-- A text is read exactly if it is within the limits and its rows draw something. -/
theorem Diagram.read_eq_ok_iff {text : List Char} {diagram : Diagram} :
    Diagram.read text = .ok diagram ↔
      WithinLimits text ∧ drawn? (text.splitOn '\n') = some diagram := by
  have hsaid : meaningfulLines (lines (trim text)) = meaningfulLines (text.splitOn '\n') := by
    rw [meaningfulLines_lines, meaningfulLines_trim]
  constructor
  · intro h
    unfold Diagram.read Diagram.ofText at h
    simp only [hsaid] at h
    split at h
    · cases h
    next hsize =>
    split at h
    · cases h
    split at h
    · cases h
    next hcount =>
    split at h
    · cases h
    next hlong =>
    refine ⟨⟨Nat.not_lt.1 hsize, Nat.not_lt.1 hcount, longLine?_eq_none_iff.1 hlong⟩, ?_⟩
    cases hm : meaningfulLines (text.splitOn '\n') with
    | nil =>
      have hh : Header.read? [] = none := by decide +kernel
      simp [hm, hh] at h
    | cons first body =>
      simp only [hm, List.head?_cons, Option.getD_some, List.tail_cons] at h
      cases hh : Header.read? first with
      | none => simp [hh] at h
      | some header => simpa [drawn?, hm, hh] using h
  · rintro ⟨hl, hd⟩
    unfold drawn? at hd
    cases hm : meaningfulLines (text.splitOn '\n') with
    | nil =>
      rw [hm] at hd
      cases hd
    | cons first body =>
      rw [hm] at hd
      obtain ⟨header, hh, rfl⟩ := Option.map_eq_some_iff.1 hd
      exact Diagram.read_eq_ok hl hm hh

/-- The lines of a text that say something, after the first of them. -/
def bodyLines (text : List Char) : List (List Char) :=
  (meaningfulLines (text.splitOn '\n')).tail

/-- What a text draws is drawn by its first line that says something and by those after it. -/
theorem Diagram.exists_header {diagram : Diagram} (h : Diagram.read text = .ok diagram) :
    ∃ first header, meaningfulLines (text.splitOn '\n') = first :: bodyLines text ∧
      Header.read? first = some header ∧ diagram = .ofLines header (bodyLines text) := by
  obtain ⟨-, hd⟩ := Diagram.read_eq_ok_iff.1 h
  unfold drawn? at hd
  unfold bodyLines
  split at hd
  · cases hd
  · next first body hm =>
    obtain ⟨header, hh, rfl⟩ := Option.map_eq_some_iff.1 hd
    rw [hm]
    exact ⟨first, header, rfl, hh, rfl⟩

/-- A row that is neither blank nor a comment. -/
def Says (row : List Char) : Prop :=
  trim row ≠ [] ∧ startsWith ['%', '%'] (trim row) = false

theorem meaningfulLines_of_says (h : ∀ row ∈ rows, Says row) :
    meaningfulLines rows = rows.map trim := by
  rw [meaningfulLines, List.filter_eq_self]
  intro row hr
  obtain ⟨row, hm, rfl⟩ := List.mem_map.1 hr
  obtain ⟨hn, hc⟩ := h row hm
  simp [hn, hc]

theorem meaningfulLines_cons_says (h : Says row) (rows : List (List Char)) :
    meaningfulLines (row :: rows) = trim row :: meaningfulLines rows := by
  rw [← List.singleton_append, meaningfulLines_append, meaningfulLines_of_says (by simpa using h)]
  rfl

/-- Rows that all say something are read back from the text that they make up. -/
theorem Diagram.read_rows {header : Header} (hl : WithinLimits (['\n'].intercalate (first :: rows)))
    (hn : ∀ row ∈ first :: rows, '\n' ∉ row) (hs : ∀ row ∈ first :: rows, Says row)
    (hh : Header.read? (trim first) = some header) :
    Diagram.read (['\n'].intercalate (first :: rows)) = .ok (.ofLines header (rows.map trim)) := by
  refine Diagram.read_eq_ok hl ?_ hh
  rw [List.splitOn_intercalate '\n' hn (by simp), meaningfulLines_of_says hs, List.map_cons]

/-- A row that says what it is written as: one line between two characters that are no blanks, of
which the first begins no comment. -/
structure Verbatim (row : List Char) : Prop where
  head : ∃ c ∈ row.head?, isBlank c = false ∧ c ≠ '%'
  last : ∀ c ∈ row.getLast?, isBlank c = false
  unbroken : '\n' ∉ row

theorem verbatim_iff : Verbatim row ↔ (row.head?.any fun c => !isBlank c && c != '%') = true ∧
    (row.getLast?.all fun c => !isBlank c) = true ∧ '\n' ∉ row := by
  constructor
  · rintro ⟨⟨c, hc, hb, hp⟩, hl, hn⟩
    refine ⟨by simp [Option.mem_def.1 hc, hb, hp], ?_, hn⟩
    cases he : row.getLast? with
    | none => rfl
    | some c => simp [hl c he]
  · rintro ⟨hh, hl, hn⟩
    refine ⟨?_, ?_, hn⟩
    · cases he : row.head? with
      | none => simp [he] at hh
      | some c => exact ⟨c, rfl, by simpa [he] using hh⟩
    · intro c hc
      simpa [Option.mem_def.1 hc] using hl

instance (row : List Char) : Decidable (Verbatim row) :=
  decidable_of_decidable_of_iff verbatim_iff.symm

theorem Verbatim.trim (h : Verbatim row) : Text.trim row = row := by
  obtain ⟨c, hc, hb, -⟩ := h.head
  apply trim_eq_self _ h.last
  intro d hd
  rw [Option.mem_unique hd hc, hb]

theorem Verbatim.isSaid (h : Verbatim row) : Says row := by
  obtain ⟨c, hc, -, hp⟩ := h.head
  cases row with
  | nil => simp at hc
  | cons d row =>
    obtain rfl : d = c := by simpa using hc
    rw [Says, h.trim]
    exact ⟨List.cons_ne_nil d row, by simp [startsWith, after?, Ne.symm hp]⟩

theorem Diagram.read_verbatim {header : Header}
    (hl : WithinLimits (['\n'].intercalate (first :: rows)))
    (hv : ∀ row ∈ first :: rows, Verbatim row) (hh : Header.read? first = some header) :
    Diagram.read (['\n'].intercalate (first :: rows)) = .ok (.ofLines header rows) := by
  have hf := (hv first List.mem_cons_self).trim
  have hr : rows.map Text.trim = rows := by
    rw [List.map_congr_left fun row hm => (hv row (List.mem_cons_of_mem first hm)).trim,
      List.map_id']
  have h := Diagram.read_rows hl (fun row hm => (hv row hm).unbroken)
    (fun row hm => (hv row hm).isSaid)
    (by rwa [hf])
  rwa [hr] at h

end Chartboard
