import Chartboard.Text.Blank

namespace Chartboard.Text

variable {cs : List Char} {c : Char}

@[simp] theorem trim_nil : trim [] = [] := rfl

theorem dropEndWhile_eq_self {p : Char → Bool} (h : ∀ c ∈ cs.getLast?, p c = false) :
    dropEndWhile p cs = cs := by
  have hd : cs.reverse.dropWhile p = cs.reverse := by
    cases hr : cs.reverse with
    | nil => rfl
    | cons c r =>
      have hl : cs.getLast? = some c := by rw [List.getLast?_eq_head?_reverse, hr]; rfl
      simp [h c (by simp [hl])]
  rw [dropEndWhile, hd, List.reverse_reverse]

theorem dropEndWhile_append_of_pos {p : Char → Bool} {more : List Char}
    (h : ∀ c ∈ more, p c = true) : dropEndWhile p (cs ++ more) = dropEndWhile p cs := by
  have hr : ∀ c ∈ more.reverse, p c = true := fun c hc => h c (List.mem_reverse.1 hc)
  rw [dropEndWhile, List.reverse_append, List.dropWhile_append_of_pos hr, dropEndWhile]

theorem dropEndWhile_concat {p : Char → Bool} (h : p c = true) :
    dropEndWhile p (cs ++ [c]) = dropEndWhile p cs :=
  dropEndWhile_append_of_pos (by simpa using h)

theorem trimStart_eq_self (h : ∀ c ∈ cs.head?, isBlank c = false) : trimStart cs = cs := by
  cases cs with
  | nil => rfl
  | cons c cs => simp [trimStart, h c (by simp)]

/-- What does not start with a blank is not trimmed behind another text. -/
theorem trimStart_append_of_head {rest : List Char} (h : ∀ c ∈ rest.head?, isBlank c = false)
    (cs : List Char) : trimStart (cs ++ rest) = trimStart cs ++ rest := by
  induction cs with
  | nil => exact trimStart_eq_self h
  | cons c cs ih =>
    cases hc : isBlank c with
    | true => simpa [trimStart, hc] using ih
    | false => simp [trimStart, hc]

theorem trimStart_append_of_blank {blanks : List Char} (h : ∀ c ∈ blanks, isBlank c = true)
    (cs : List Char) : trimStart (blanks ++ cs) = trimStart cs :=
  List.dropWhile_append_of_pos h

theorem trim_append_of_blank {blanks : List Char} (h : ∀ c ∈ blanks, isBlank c = true)
    (cs : List Char) : trim (blanks ++ cs) = trim cs := by
  rw [trim, trimStart_append_of_blank h, trim]

theorem exists_leading_blanks (cs : List Char) :
    ∃ blanks, (∀ c ∈ blanks, isBlank c = true) ∧ blanks ++ trimStart cs = cs :=
  ⟨cs.takeWhile isBlank, List.all_eq_true.1 List.all_takeWhile, List.takeWhile_append_dropWhile⟩

@[simp] theorem trimStart_trimStart (cs : List Char) :
    trimStart (trimStart cs) = trimStart cs := by
  refine trimStart_eq_self fun c hc => ?_
  obtain ⟨r, hr⟩ := List.head?_eq_some_iff.1 hc
  exact trimStart_head hr

theorem trim_eq_self (hh : ∀ c ∈ cs.head?, isBlank c = false)
    (hl : ∀ c ∈ cs.getLast?, isBlank c = false) : trim cs = cs := by
  rw [trim, trimStart_eq_self hh]
  exact dropEndWhile_eq_self hl

theorem trimStart_cons_blank (h : isBlank c = true) : trimStart (c :: cs) = trimStart cs := by
  simp [trimStart, h]

theorem trimEnd_append_blank (h : isBlank c = true) : trimEnd (cs ++ [c]) = trimEnd cs :=
  dropEndWhile_concat h

theorem trim_cons_blank (h : isBlank c = true) : trim (c :: cs) = trim cs := by
  rw [trim, trimStart_cons_blank h, trim]

theorem trim_append_blank (h : isBlank c = true) : trim (cs ++ [c]) = trim cs := by
  unfold trim trimStart
  rw [List.dropWhile_append]
  split
  · next he => simp [List.isEmpty_iff.1 he, h]
  · exact trimEnd_append_blank h

theorem trim_pad {left line right : List Char} (hl : ∀ c ∈ left, isBlank c = true)
    (hr : ∀ c ∈ right, isBlank c = true) :
    trim (left ++ line ++ right) = trim line := by
  have hleft : trim (left ++ line) = trim line := by
    induction left with
    | nil => rfl
    | cons c left ih =>
      rw [List.forall_mem_cons] at hl
      rw [List.cons_append, trim_cons_blank hl.1, ih hl.2]
  rw [← hleft]
  generalize left ++ line = cs
  induction right generalizing cs with
  | nil => rw [List.append_nil]
  | cons c right ih =>
    rw [List.forall_mem_cons] at hr
    rw [List.append_cons, ih hr.2 (cs ++ [c]), trim_append_blank hr.1]

theorem dropEndWhile_sublist (p : Char → Bool) (cs : List Char) :
    (dropEndWhile p cs).Sublist cs := by
  have h := (List.dropWhile_suffix (l := cs.reverse) p).sublist.reverse
  rwa [List.reverse_reverse] at h

theorem trim_sublist (cs : List Char) : (trim cs).Sublist cs :=
  (dropEndWhile_sublist isBlank _).trans (trimStart_suffix cs).sublist

theorem trimStart_of_trim (h : trim cs = cs) : trimStart cs = cs := by
  refine (trimStart_suffix cs).eq_of_length_le ?_
  calc cs.length = (trim cs).length := by rw [h]
    _ ≤ (trimStart cs).length := (dropEndWhile_sublist isBlank _).length_le

theorem trimEnd_of_trim (h : trim cs = cs) : trimEnd cs = cs := by
  rwa [trim, trimStart_of_trim h] at h

theorem head_of_trim (h : trim cs = cs) : ∀ c ∈ cs.head?, isBlank c = false := by
  intro c hc
  obtain ⟨r, rfl⟩ := List.head?_eq_some_iff.1 hc
  exact trimStart_head (trimStart_of_trim h)

theorem last_of_trim (h : trim cs = cs) : ∀ c ∈ cs.getLast?, isBlank c = false := by
  intro c hc
  have hr : cs.reverse.head? = some c := by rwa [List.head?_reverse]
  obtain ⟨r, hr⟩ := List.head?_eq_some_iff.1 hr
  have he : trimStart cs.reverse = cs.reverse := List.reverse_eq_iff.1 (trimEnd_of_trim h)
  rw [hr] at he
  exact trimStart_head he

theorem exists_dropped (p : Char → Bool) (cs : List Char) :
    ∃ dropped, (∀ c ∈ dropped, p c = true) ∧ dropEndWhile p cs ++ dropped = cs := by
  refine ⟨(cs.reverse.takeWhile p).reverse, ?_, ?_⟩
  · intro c hc
    exact List.all_eq_true.1 List.all_takeWhile c (List.mem_reverse.1 hc)
  · rw [dropEndWhile, ← List.reverse_append, List.takeWhile_append_dropWhile, List.reverse_reverse]

theorem mem_dropEndWhile {p : Char → Bool} (hc : c ∈ cs) (hp : p c = false) :
    c ∈ dropEndWhile p cs := by
  obtain ⟨dropped, hd, he⟩ := exists_dropped p cs
  rw [← he, List.mem_append] at hc
  refine hc.resolve_right fun hm => ?_
  rw [hd c hm] at hp
  cases hp

theorem dropEndWhile_append {p : Char → Bool} {more : List Char} (h : dropEndWhile p more ≠ [])
    (cs : List Char) : dropEndWhile p (cs ++ more) = cs ++ dropEndWhile p more := by
  have hd : (more.reverse.dropWhile p).isEmpty = false := by
    simpa [dropEndWhile, List.isEmpty_eq_false_iff] using h
  rw [dropEndWhile, List.reverse_append, List.dropWhile_append, hd]
  simp [dropEndWhile]

/-- Trimming stops at a character that is not blank. -/
theorem trimEnd_append_of_last {more : List Char} (h : ∀ c ∈ cs.getLast?, isBlank c = false) :
    trimEnd (cs ++ more) = cs ++ trimEnd more := by
  by_cases hm : dropEndWhile isBlank more = []
  · obtain ⟨blanks, hb, he⟩ := exists_dropped isBlank more
    rw [hm, List.nil_append] at he
    subst he
    rw [trimEnd, dropEndWhile_append_of_pos hb, dropEndWhile_eq_self h, trimEnd, hm,
      List.append_nil]
  · rw [trimEnd, dropEndWhile_append hm, trimEnd]

theorem exists_blanks (cs : List Char) :
    ∃ blanks, (∀ c ∈ blanks, isBlank c = true) ∧ trimEnd cs ++ blanks = cs :=
  exists_dropped isBlank cs

theorem last_trimEnd (cs : List Char) : ∀ c ∈ (trimEnd cs).getLast?, isBlank c = false := by
  intro c hc
  rw [trimEnd, dropEndWhile, List.getLast?_reverse] at hc
  obtain ⟨r, hr⟩ := List.head?_eq_some_iff.1 hc
  exact trimStart_head hr

theorem trimEnd_prefix (cs : List Char) : trimEnd cs <+: cs := by
  obtain ⟨blanks, -, he⟩ := exists_blanks cs
  exact ⟨blanks, he⟩

@[simp] theorem trim_trim (cs : List Char) : trim (trim cs) = trim cs := by
  refine trim_eq_self ?_ (last_trimEnd _)
  intro c hc
  obtain ⟨r, hr⟩ := List.head?_eq_some_iff.1 hc
  obtain ⟨rest, he⟩ := trimEnd_prefix (trimStart cs)
  rw [← trim, hr] at he
  exact trimStart_head he.symm

theorem trim_trimStart_of_last {cs : List Char} (h : ∀ c ∈ cs.getLast?, isBlank c = false) :
    trim (trimStart cs) = trimStart cs := by
  cases hs : trimStart cs with
  | nil => rfl
  | cons d r =>
    refine trim_eq_self ?_ ?_
    · rintro c ⟨⟩
      exact trimStart_head hs
    · intro c hc
      obtain ⟨before, he⟩ := trimStart_suffix cs
      refine h c ?_
      rw [← he, hs, List.getLast?_append, Option.mem_def.1 hc]
      rfl

@[simp] theorem trim_trimStart (cs : List Char) : trim (trimStart cs) = trim cs := by
  rw [trim, trimStart_trimStart, trim]

@[simp] theorem trim_trimEnd (cs : List Char) : trim (trimEnd cs) = trim cs := by
  obtain ⟨blanks, hb, he⟩ := exists_blanks cs
  have hpad : trim ([] ++ trimEnd cs ++ blanks) = trim (trimEnd cs) := trim_pad (by simp) hb
  rwa [List.nil_append, he, eq_comm] at hpad

/-- Trimming does not reach across a character that is not blank. -/
theorem trim_append_cons (h : isBlank c = false) (before after : List Char) :
    trim (before ++ c :: after) = trimStart before ++ c :: trimEnd after := by
  have hstart : trimStart (before ++ c :: after) = trimStart before ++ c :: after :=
    trimStart_append_of_head (by simpa using h) before
  have hlast : ∀ d ∈ (trimStart before ++ [c]).getLast?, isBlank d = false := by simpa using h
  rw [trim, hstart, List.append_cons, trimEnd_append_of_last hlast, ← List.append_cons]

end Chartboard.Text
