import Chartboard.Flow.Link
import Chartboard.Proofs.Text.Trimming
import Mathlib.Data.List.TakeWhile

namespace Chartboard.Text
open Chartboard.Flow

variable {cs id : List Char} {label : String}

/-- Whether a text has a character that is not blank. -/
def Visible (s : String) : Prop :=
  ∃ c ∈ s.toList, isBlank c = false

instance (s : String) : Decidable (Visible s) :=
  decidable_of_iff (s.toList.any (!isBlank ·) = true) (by simp [Visible])

/-- A pair of quotes with blanks between them, and at least one of these. -/
def IsHollow (cs : List Char) : Prop :=
  ∃ blanks, cs = '"' :: blanks ++ ['"'] ∧ blanks ≠ [] ∧ ∀ c ∈ blanks, isBlank c = true

/-- Quotes on two sides of blanks, and nothing else; there may be none of either. -/
def IsQuotes (cs : List Char) : Prop :=
  ∃ left blanks right, cs = left ++ blanks ++ right ∧ (∀ c ∈ left ++ right, c = '"') ∧
    ∀ c ∈ blanks, isBlank c = true

/-- What is shown for a text that stands beside an id: the text without a pair of quotes around it,
or the id if nothing is left. -/
def caption (id text : List Char) : String :=
  String.ofList (if (unquote text).isEmpty then id else unquote text)

theorem not_visible_iff : ¬ Visible (String.ofList cs) ↔ ∀ c ∈ cs, isBlank c = true := by
  simp [Visible]

/-- A trimmed text shows something unless it is empty. -/
theorem visible_of_trim (h : trim cs = cs) (hn : cs ≠ []) : Visible (String.ofList cs) := by
  obtain ⟨c, r, rfl⟩ := List.exists_cons_of_ne_nil hn
  exact ⟨c, by simp, head_of_trim h c rfl⟩

theorem Visible.ne_empty (h : Visible label) : label ≠ "" := by
  rintro rfl
  obtain ⟨c, hc, -⟩ := h
  simp at hc

theorem unquote_cases (cs : List Char) :
    (∃ inner, cs = '"' :: inner ++ ['"'] ∧ unquote cs = inner) ∨
      unquote cs = cs ∧ ∀ inner, cs ≠ '"' :: inner ++ ['"'] := by
  by_cases h : ∃ inner, cs = '"' :: inner ++ ['"']
  · obtain ⟨inner, rfl⟩ := h
    exact .inl ⟨inner, rfl, by simp [unquote]⟩
  · rw [not_exists] at h
    refine .inr ⟨?_, h⟩
    unfold unquote
    split
    · next r =>
      split
      · next hl =>
        obtain ⟨inner, rfl⟩ := List.getLast?_eq_some_iff.1 hl
        exact absurd rfl (h inner)
      · rfl
    · rfl

/-- A trimmed text beside an id that shows something leaves nothing to see exactly if it is hollow:
an empty text gives way to the id, and a blank one does not. -/
theorem caption_visible_iff (ht : trim cs = cs) (hid : Visible (String.ofList id)) :
    Visible (caption id cs) ↔ ¬ IsHollow cs := by
  rcases unquote_cases cs with ⟨inner, rfl, hu⟩ | ⟨hu, hne⟩
  · have hhollow : IsHollow ('"' :: inner ++ ['"']) ↔
        inner ≠ [] ∧ ∀ c ∈ inner, isBlank c = true := by
      constructor
      · rintro ⟨blanks, he, hn, hb⟩
        obtain rfl : inner = blanks := by simpa using he
        exact ⟨hn, hb⟩
      · rintro ⟨hn, hb⟩
        exact ⟨inner, rfl, hn, hb⟩
    rw [hhollow, caption, hu]
    cases inner with
    | nil => simpa using hid
    | cons c inner =>
      rw [if_neg (by simp), ← not_visible_iff]
      simp
  · have hnot : ¬ IsHollow cs := fun ⟨blanks, he, _⟩ => hne blanks he
    refine iff_of_true ?_ hnot
    rw [caption, hu]
    by_cases hn : cs = []
    · rwa [hn]
    · rw [if_neg (by simpa using hn)]
      exact visible_of_trim ht hn

/-- The text of a link is trimmed after its quotes are gone, and dropped if nothing is left. -/
theorem label?_visible (h : label? cs = some label) :
    trim label.toList = label.toList ∧ Visible label := by
  have ht : trim (trim (unquote (trim cs))) = trim (unquote (trim cs)) := trim_trim _
  unfold label? at h
  split at h
  · cases h
  · next c r he =>
    cases h
    rw [he] at ht
    exact ⟨by simpa using ht, visible_of_trim ht (List.cons_ne_nil c r)⟩

/-- What is left between the quotes at the two ends of a text. -/
def stripped (cs : List Char) : List Char :=
  dropEndWhile (· == '"') (cs.dropWhile (· == '"'))

theorem exists_stripped (cs : List Char) :
    ∃ left right, cs = left ++ stripped cs ++ right ∧ ∀ c ∈ left ++ right, c = '"' := by
  obtain ⟨right, hright, he⟩ := exists_dropped (· == '"') (cs.dropWhile (· == '"'))
  have hleft : ∀ c ∈ cs.takeWhile (· == '"'), (c == '"') = true :=
    List.all_eq_true.1 List.all_takeWhile
  refine ⟨cs.takeWhile (· == '"'), right, ?_, ?_⟩
  · rw [stripped, List.append_assoc, he, List.takeWhile_append_dropWhile]
  · rw [List.forall_mem_append]
    exact ⟨fun c hc => beq_iff_eq.1 (hleft c hc), fun c hc => beq_iff_eq.1 (hright c hc)⟩

theorem stripped_append {left blanks right : List Char} (hq : ∀ c ∈ left ++ right, c = '"')
    (hb : ∀ c ∈ blanks, isBlank c = true) : stripped (left ++ blanks ++ right) = blanks := by
  rw [List.forall_mem_append] at hq
  have hquote : isBlank '"' = false := by decide
  have hsolid : ∀ c ∈ blanks, (c == '"') = false := by
    intro c hc
    refine beq_eq_false_iff_ne.2 fun he => ?_
    rw [← he, hb c hc] at hquote
    cases hquote
  have hleft : (left ++ blanks ++ right).dropWhile (· == '"') =
      (blanks ++ right).dropWhile (· == '"') := by
    rw [List.append_assoc]
    exact List.dropWhile_append_of_pos fun c hc => beq_iff_eq.2 (hq.1 c hc)
  have hright : ∀ c ∈ right, (c == '"') = true := fun c hc => beq_iff_eq.2 (hq.2 c hc)
  rw [stripped, hleft]
  cases blanks with
  | nil =>
    rw [List.nil_append, List.dropWhile_eq_nil_iff.2 hright]
    rfl
  | cons b blanks =>
    rw [List.cons_append, List.dropWhile_cons_of_neg (by simp [hsolid b]), ← List.cons_append,
      dropEndWhile_append_of_pos hright]
    exact dropEndWhile_eq_self fun c hc => hsolid c (List.mem_of_mem_getLast? hc)

/-- Nothing is seen between the quotes exactly if there is nothing but blanks. -/
theorem stripped_visible_iff : Visible (String.ofList (stripped cs)) ↔ ¬ IsQuotes cs := by
  have hiff : ¬ Visible (String.ofList (stripped cs)) ↔ IsQuotes cs := by
    rw [not_visible_iff]
    constructor
    · intro h
      obtain ⟨left, right, he, hq⟩ := exists_stripped cs
      exact ⟨left, stripped cs, right, he, hq, h⟩
    · rintro ⟨left, blanks, right, rfl, hq, hb⟩
      rwa [stripped_append hq hb]
  exact (not_iff_comm.1 hiff).symm

end Chartboard.Text
