import Chartboard.Proofs.Text.Trimming
import Chartboard.Text.Search

namespace Chartboard.Text

variable {mark cs rest : List Char} {c : Char}

@[simp] theorem after?_append (mark rest : List Char) : after? mark (mark ++ rest) = some rest :=
  after?_eq_some_iff.2 rfl

theorem after?_eq_none_iff : after? mark cs = none ↔ ¬ mark <+: cs := by
  rw [← Option.not_isSome_iff_eq_none, Option.isSome_iff_exists]
  apply not_congr
  constructor
  · rintro ⟨rest, h⟩
    exact ⟨rest, (after?_eq_some_iff.1 h).symm⟩
  · rintro ⟨rest, h⟩
    exact ⟨rest, after?_eq_some_iff.2 h.symm⟩

theorem startsWith_eq_false_iff : startsWith mark cs = false ↔ ¬ mark <+: cs := by
  rw [startsWith, ← after?_eq_none_iff, ← Option.not_isSome_iff_eq_none, Bool.not_eq_true]

theorem cut_eq_none_iff : cut mark cs = none ↔ ¬ mark <:+: cs := by
  induction cs with
  | nil =>
    rw [cut, Option.map_eq_none_iff, after?_eq_none_iff, List.prefix_nil, List.infix_nil]
  | cons c cs ih =>
    rw [List.infix_cons_iff, not_or, ← ih, ← after?_eq_none_iff]
    simp only [cut]
    cases after? mark (c :: cs) <;> simp

theorem contains_eq_false_iff : contains mark cs = false ↔ ¬ mark <:+: cs := by
  rw [contains, ← cut_eq_none_iff, ← Option.not_isSome_iff_eq_none, Bool.not_eq_true]

/-- A prefix of a text with a barrier in it does not have the barrier, so it ends before it. -/
theorem prefix_of_barrier {barrier : Char} (hb : barrier ∉ mark) (cs rest : List Char)
    (h : mark <+: cs ++ barrier :: rest) : mark <+: cs := by
  rcases List.prefix_or_prefix_of_prefix h (List.prefix_append cs _) with hm | ⟨t, rfl⟩
  · exact hm
  · cases t with
    | nil => simp
    | cons d t =>
      obtain ⟨rfl, -⟩ := List.cons_prefix_cons.1 ((List.prefix_append_right_inj cs).1 h)
      simp at hb

/-- The search goes on behind a barrier before which the mark is not found. -/
theorem cut_barrier {barrier : Char} (hb : barrier ∉ mark) (hn : mark ≠ [])
    (h : ¬ mark <:+: cs) (rest : List Char) : cut mark (cs ++ barrier :: rest) =
      (cut mark rest).map fun x => (cs ++ barrier :: x.1, x.2) := by
  induction cs with
  | nil =>
    have hnone : after? mark (barrier :: rest) = none := by
      refine after?_eq_none_iff.2 fun hp => hn (List.prefix_nil.1 ?_)
      exact prefix_of_barrier hb [] rest hp
    rw [List.nil_append, cut, hnone]
    rfl
  | cons c cs ih =>
    rw [List.infix_cons_iff, not_or] at h
    have hnone : after? mark (c :: (cs ++ barrier :: rest)) = none :=
      after?_eq_none_iff.2 fun hp => h.1 (prefix_of_barrier hb (c :: cs) rest hp)
    rw [List.cons_append, cut, hnone]
    simp only [ih h.2, Option.map_map]
    rfl

/-- A mark without the barrier stands on one side of it. -/
theorem infix_of_barrier {barrier : Char} (hb : barrier ∉ mark) (hn : mark ≠ [])
    (h : mark <:+: cs ++ barrier :: rest) : mark <:+: cs ∨ mark <:+: rest := by
  by_cases hc : mark <:+: cs
  · exact .inl hc
  · by_cases hr : mark <:+: rest
    · exact .inr hr
    · have hcut := cut_barrier hb hn hc rest
      rw [cut_eq_none_iff.2 hr, Option.map_none, cut_eq_none_iff] at hcut
      exact absurd h hcut

/-- Characters that a mark does not have are of no use for finding it. -/
theorem infix_append_left_iff {before : List Char} (hn : mark ≠ [])
    (h : ∀ c ∈ before, c ∉ mark) : mark <:+: before ++ cs ↔ mark <:+: cs := by
  induction before with
  | nil => rfl
  | cons c before ih =>
    rw [List.forall_mem_cons] at h
    rw [List.cons_append, List.infix_cons_iff, ih h.2, or_iff_right]
    intro hp
    obtain ⟨d, r, rfl⟩ := List.exists_cons_of_ne_nil hn
    obtain ⟨rfl, -⟩ := List.cons_prefix_cons.1 hp
    exact h.1 List.mem_cons_self

theorem infix_append_right_iff {after : List Char} (hn : mark ≠ [])
    (h : ∀ c ∈ after, c ∉ mark) : mark <:+: cs ++ after ↔ mark <:+: cs := by
  rw [← List.reverse_infix, List.reverse_append, infix_append_left_iff (by simpa using hn)
    (by simpa using h), List.reverse_infix]

theorem cut_append (hn : mark ≠ []) (rest : List Char) :
    cut mark (mark ++ rest) = some ([], rest) := by
  obtain ⟨m, ms, rfl⟩ := List.exists_cons_of_ne_nil hn
  have ha := after?_append (m :: ms) rest
  rw [List.cons_append] at ha ⊢
  rw [cut, ha]

/-- Whether a text starts with a mark does not depend on what follows the text, if the text is long
enough for the mark. -/
theorem after?_append_of_le (h : mark.length ≤ cs.length) (rest : List Char) :
    after? mark (cs ++ rest) = (after? mark cs).map (· ++ rest) := by
  induction mark generalizing cs with
  | nil => rfl
  | cons m ms ih =>
    cases cs with
    | nil => simp at h
    | cons c cs =>
      rw [List.length_cons, List.length_cons, Nat.add_le_add_iff_right] at h
      rw [List.cons_append, after?, after?, ih h]
      split <;> rfl

/-- Nor does it where a mark is found first. -/
theorem cut_append_iff (hn : mark ≠ []) (before rest : List Char) :
    cut mark (before ++ mark ++ rest) = some (before, rest) ↔
      cut mark (before ++ mark) = some (before, []) := by
  induction before with
  | nil =>
    have he := cut_append hn []
    rw [List.append_nil] at he
    simp only [List.nil_append, cut_append hn, he]
  | cons c before ih =>
    have ha : after? mark (c :: (before ++ mark) ++ rest) =
        (after? mark (c :: (before ++ mark))).map (· ++ rest) :=
      after?_append_of_le (by simp; omega) rest
    rw [List.cons_append] at ha
    rw [List.cons_append, List.cons_append, cut, cut, ha]
    cases after? mark (c :: (before ++ mark)) with
    | none => simpa using ih
    | some r => simp

theorem cut_eq_some_iff (hn : mark ≠ []) {before : List Char} :
    cut mark cs = some (before, rest) ↔
      cs = before ++ mark ++ rest ∧ cut mark (before ++ mark) = some (before, []) := by
  constructor
  · intro h
    have he := eq_append_of_cut h
    exact ⟨he, (cut_append_iff hn before rest).1 (he ▸ h)⟩
  · rintro ⟨rfl, h⟩
    exact (cut_append_iff hn before rest).2 h

/-- A text in quotes before a mark ends at the mark if the mark is not in the text. -/
theorem cut_quoted (hb : '"' ∉ mark) (hn : mark ≠ []) (h : ¬ mark <:+: cs) (rest : List Char) :
    cut mark ('"' :: cs ++ '"' :: (mark ++ rest)) = some ('"' :: cs ++ ['"'], rest) := by
  have hnil : ¬ mark <:+: [] := by simpa using hn
  have ho := cut_barrier hb hn hnil (cs ++ '"' :: (mark ++ rest))
  rw [List.nil_append] at ho
  rw [List.cons_append, ho, cut_barrier hb hn h, cut_append hn]
  simp

/-- The first character of a mark is enough to keep it out of the text before it. -/
theorem cut_cons_append {ms : List Char} (h : c ∉ cs) (rest : List Char) :
    cut (c :: ms) (cs ++ (c :: ms ++ rest)) = some (cs, rest) := by
  induction cs with
  | nil => exact cut_append (List.cons_ne_nil c ms) rest
  | cons d cs ih =>
    rw [List.mem_cons, not_or] at h
    have hd : after? (c :: ms) (d :: (cs ++ (c :: ms ++ rest))) = none := if_neg h.1
    simp only [List.cons_append (a := d), cut, hd, ih h.2, Option.map_some]

theorem cut_char (h : c ∉ cs) (rest : List Char) : cut [c] (cs ++ c :: rest) = some (cs, rest) :=
  cut_cons_append h rest

theorem cut_char_eq_none_iff : cut [c] cs = none ↔ c ∉ cs := by
  rw [cut_eq_none_iff]
  apply not_congr
  constructor
  · intro h
    exact h.subset (by simp)
  · intro h
    obtain ⟨a, b, rfl⟩ := List.append_of_mem h
    exact ⟨a, b, by simp⟩

/-- Cutting at a character takes its first occurrence. -/
theorem cut_char_eq_some_iff {line : List Char} :
    cut [c] cs = some (line, rest) ↔ c ∉ line ∧ cs = line ++ c :: rest := by
  constructor
  · intro h
    have he : cs = line ++ c :: rest := by simpa using eq_append_of_cut h
    refine ⟨?_, he⟩
    intro hm
    obtain ⟨a, b, rfl, ha⟩ := List.eq_append_cons_of_mem hm
    rw [he, List.append_assoc, List.cons_append, cut_char ha] at h
    simp at h
  · rintro ⟨hn, rfl⟩
    exact cut_char hn rest

theorem sameLetters_eq_false {a b : List Char} (hc : c ∈ a) (h : c.toLower ∉ b.map Char.toLower) :
    sameLetters a b = false := by
  refine beq_eq_false_iff_ne.2 fun he => h ?_
  rw [← he]
  exact List.mem_map_of_mem hc

/-- No keyword stands where a character is too many. -/
theorem afterKeyword?_of_mem {keyword : List Char} (hm : c ∈ cs.take keyword.length)
    (hc : c.toLower ∉ keyword.map Char.toLower) : afterKeyword? keyword cs = none := by
  simp [afterKeyword?, sameLetters_eq_false hm hc]

theorem isBlank_toLower (hb : isBlank c = true) : c.toLower = c := by
  have hn : ¬ (65 ≤ c.toNat ∧ c.toNat ≤ 90) := by
    simp only [isBlank, Bool.or_eq_true, Bool.and_eq_true, decide_eq_true_eq, beq_iff_eq] at hb
    omega
  unfold Char.toLower
  split
  · next h => exact absurd ⟨UInt32.le_iff_toNat_le.1 h.1, UInt32.le_iff_toNat_le.1 h.2⟩ hn
  · rfl

/-- A word is a keyword only as a whole, if the character behind it belongs to none. -/
theorem afterKeyword?_solid {keyword word : List Char} (hw : ∀ d ∈ word, isBlank d = false)
    (hr : ∀ c ∈ rest.head?, c.toLower ∉ keyword.map Char.toLower) :
    afterKeyword? keyword (word ++ rest) =
      if sameLetters word keyword && rest.head?.all isBlank then some (trim rest) else none := by
  have hother : word.length ≠ keyword.length → sameLetters word keyword = false := by
    intro hne
    refine beq_eq_false_iff_ne.2 fun he => hne ?_
    simpa using congrArg List.length he
  rcases Nat.lt_trichotomy word.length keyword.length with hlt | heq | hgt
  · rw [hother (Nat.ne_of_lt hlt), Bool.false_and, if_neg Bool.false_ne_true]
    cases rest with
    | nil =>
      have ht : word.take keyword.length = word := List.take_of_length_le (Nat.le_of_lt hlt)
      simp [afterKeyword?, ht, hother (Nat.ne_of_lt hlt)]
    | cons c r =>
      refine afterKeyword?_of_mem ?_ (hr c rfl)
      obtain ⟨k, hk⟩ := Nat.exists_eq_add_of_lt hlt
      rw [hk, Nat.add_assoc, List.take_length_add_append, List.take_succ_cons]
      exact List.mem_append_right _ List.mem_cons_self
  · simp [afterKeyword?, ← heq]
  · rw [hother (Nat.ne_of_gt hgt), Bool.false_and, if_neg Bool.false_ne_true]
    have hd : (word ++ rest).drop keyword.length = word.drop keyword.length ++ rest :=
      List.drop_append_of_le_length (Nat.le_of_lt hgt)
    obtain ⟨d, r, hdrop⟩ := List.exists_cons_of_ne_nil (l := word.drop keyword.length)
      fun he => by simp at he; omega
    have hsolid : isBlank d = false := hw d (List.mem_of_mem_drop (hdrop ▸ List.mem_cons_self))
    simp [afterKeyword?, hd, hdrop, hsolid]

/-- A word that goes on with another character than the letters of a keyword is not the keyword. -/
theorem afterKeyword?_eq_none {keyword word : List Char} (hw : ∀ d ∈ word, isBlank d = false)
    (hb : isBlank c = false) (hc : c.toLower ∉ keyword.map Char.toLower) (rest : List Char) :
    afterKeyword? keyword (word ++ c :: rest) = none := by
  have hr : ∀ d ∈ (c :: rest).head?, d.toLower ∉ keyword.map Char.toLower := by
    rintro d ⟨⟩
    exact hc
  simp [afterKeyword?_solid hw hr, hb]

theorem length_afterKeyword? {keyword : List Char}
    (h : afterKeyword? keyword cs = some rest) : keyword.length ≤ cs.length := by
  simp only [afterKeyword?] at h
  split at h
  · next hs =>
    have he := congrArg List.length (beq_iff_eq.1 (Bool.and_eq_true_iff.1 hs).1)
    rw [List.length_map, List.length_map, List.length_take] at he
    omega
  · cases h

theorem afterKeyword?_append (keyword : List Char) (hb : isBlank c = true) (rest : List Char) :
    afterKeyword? keyword (keyword ++ c :: rest) = some (trim rest) := by
  simp [afterKeyword?, sameLetters, hb, trim_cons_blank hb]

end Chartboard.Text
