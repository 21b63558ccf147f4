import Chartboard.Proofs.Flow.Chains

namespace Chartboard.Flow
open Text

variable {cs rest more line other : List Char} {s t : Statement}

def Statement.links (s : Statement) : List Link :=
  s.hops.map (·.1)

theorem Statement.eq_of_parts (hm : s.mentions = t.mentions) (hl : s.links = t.links) : s = t := by
  obtain ⟨first, hops⟩ := s
  obtain ⟨first', hops'⟩ := t
  rw [mentions, mentions, List.cons.injEq] at hm
  obtain ⟨rfl, hm⟩ := hm
  congr
  have hl : hops.map (·.1) = hops'.map (·.1) := hl
  calc hops = (hops.map (·.1)).zip (hops.map (·.2)) := List.zip_of_prod rfl rfl
    _ = (hops'.map (·.1)).zip (hops'.map (·.2)) := by rw [hm, hl]
    _ = hops' := (List.zip_of_prod rfl rfl).symm

/-- Two chains make one, if a link leads from the last mention of the first to the other. -/
theorem Statement.eq_append_iff {u : Statement} {link : Link} :
    u = ⟨s.first, s.hops ++ (link, t.first) :: t.hops⟩ ↔
      u.mentions = s.mentions ++ t.mentions ∧ u.links = s.links ++ link :: t.links := by
  constructor
  · rintro rfl
    constructor
    · simp [mentions]
    · simp [links]
  · rintro ⟨hm, hl⟩
    refine eq_of_parts (hm.trans ?_) (hl.trans ?_)
    · simp [mentions]
    · simp [links]

/-- A line whose first word is no keyword keeps it with a blank behind. -/
theorem afterKeyword?_append_eq_none {blank : Char} {keyword : List Char}
    (h : Statement.read? cs = some s) (hk : afterKeyword? keyword cs = none)
    (hword : (keyword.map Char.toLower).all isWordChar = true) (hb : isBlank blank = true) :
    afterKeyword? keyword (cs ++ blank :: more) = none := by
  obtain ⟨id, rest, rfl, hid, hr⟩ := Statement.read?_word h
  rw [afterKeyword?_word rest hword hid hr] at hk
  rw [List.append_assoc]
  cases rest with
  | nil =>
    refine (afterKeyword?_word (blank :: more) hword hid ?_).2 fun hs => ?_
    · intro c hc
      cases hc
      exact not_wordChar_of_blank hb
    · cases hk hs
  | cons c r => exact (afterKeyword?_word (c :: r ++ blank :: more) hword hid hr).2 hk

theorem hops?_arrow (h : Statement.read? cs = some s) :
    hops? (" --> ".toList ++ cs) = some ((⟨.solid, .arrow, none⟩, s.first) :: s.hops) := by
  have hlink : Link.read? (" --> ".toList ++ cs) = some (⟨.solid, .arrow, none⟩, cs) := by
    obtain ⟨id, rest, rfl, hid, -⟩ := Statement.read?_word h
    obtain ⟨c, r, rfl⟩ := List.exists_cons_of_ne_nil hid.nonempty
    have hc : isBlank c = false ∧ c ≠ '|' := by
      refine ⟨hid.not_blank c List.mem_cons_self, ?_⟩
      rintro rfl
      exact absurd (hid.chars '|' List.mem_cons_self) (by decide +kernel)
    have hop : operator? (['-', '-', '>'] ++ ' ' :: (c :: r ++ rest)) =
        some (⟨.solid, .arrow, none⟩, ' ' :: (c :: r ++ rest)) :=
      operator?_append rfl _ ⟨' ', _, rfl, .inl rfl⟩
    have ht : trimStart (" --> ".toList ++ (c :: r ++ rest)) =
        ['-', '-', '>'] ++ ' ' :: (c :: r ++ rest) := rfl
    have hafter : trimStart (' ' :: (c :: r ++ rest)) = c :: r ++ rest := by
      rw [trimStart_cons_blank (by decide)]
      exact trimStart_eq_self (by simpa using hc.1)
    rw [Link.read?, ht, hop]
    simp only [Option.bind_eq_bind, Option.bind_some, hafter]
    split
    · next he =>
      cases he
      exact absurd rfl hc.2
    · rfl
  obtain ⟨rest, hm, hr⟩ := Statement.read?_eq_some_iff.1 h
  rw [hops?_of_link hlink, hm, Option.bind_some, hr, Option.map_some]

/-- Between two chains neither blanks nor an arrow close brackets. -/
theorem leavesOpen_iff {place blanks : List Char} (hb : ∀ c ∈ blanks, isBlank c = true) :
    LeavesOpen place (blanks ++ " --> ".toList ++ said other) ↔ LeavesOpen place other := by
  have hclosers : ∀ b ∈ brackets, '-' ∉ b.closer ∧ '>' ∉ b.closer ∧ ';' ∉ b.closer := by decide
  obtain ⟨tail, ht, hother⟩ := exists_said other
  refine forall₂_congr fun b hm => imp_congr_right fun _ => not_congr ?_
  have hs := isSigned_of_mem hm
  obtain ⟨hdash, hhead, hsemicolon⟩ := hclosers b hm
  have hblank : ∀ c, isBlank c = true → c ∉ b.closer := by
    intro c hc hmem
    rw [hs.unblank c (List.mem_append_right _ hmem)] at hc
    cases hc
  rw [infix_append_left_iff hs.closer]
  · conv => rhs; rw [hother]
    refine (infix_append_right_iff hs.closer fun c hc => ?_).symm
    rcases ht c hc with rfl | hc
    · exact hsemicolon
    · exact hblank c hc
  · intro c hc
    rcases List.mem_append.1 hc with hc | hc
    · exact hblank c (hb c hc)
    · obtain rfl | rfl | rfl | rfl : c = ' ' ∨ c = '-' ∨ c = '>' ∨ c = ' ' := by simpa using hc
      · exact hblank ' ' (by decide)
      · exact hdash
      · exact hhead
      · exact hblank ' ' (by decide)

/-- Blanks and an arrow stand between what the two halves of a joined line say. -/
theorem exists_gap (h : said other ≠ []) (line : List Char) :
    ∃ blanks, (∀ c ∈ blanks, isBlank c = true) ∧
      said (dropEndWhile (· == ';') line ++ " --> ".toList ++ other) =
        said line ++ (blanks ++ " --> ".toList ++ said other) := by
  obtain ⟨blanks, hb, hline⟩ := exists_blanks (dropEndWhile (· == ';') line)
  refine ⟨blanks, hb, ?_⟩
  rw [said_append h, ← hline]
  simp only [said, List.append_assoc]

/-- The line that an arrow makes of two chains is the chain with the mentions and links of both
exactly if the second closes no brackets that a mention of the first opens and does not close. -/
theorem joined_lines_chain_iff (hs : Line.ofText line = .statement s)
    (ht : Line.ofText other = .statement t) :
    (∃ u, Line.ofText (dropEndWhile (· == ';') line ++ " --> ".toList ++ other) = .statement u ∧
      u.mentions = s.mentions ++ t.mentions ∧
      u.links = s.links ++ ⟨.solid, .arrow, none⟩ :: t.links) ↔
    ∀ p ∈ places (said line), LeavesOpen p.1 other := by
  obtain ⟨-, hkey, hread⟩ := Line.ofText_eq_statement_iff.1 hs
  obtain ⟨-, -, hread'⟩ := Line.ofText_eq_statement_iff.1 ht
  obtain ⟨blanks, hb, hsaid⟩ := exists_gap (Statement.ne_nil_of_read? hread') line
  have hopen : ∀ p : List Char × List Char,
      LeavesOpen p.1 (blanks ++ " --> ".toList ++ said other) ↔ LeavesOpen p.1 other :=
    fun p => leavesOpen_iff hb
  have hhops : hops? (blanks ++ " --> ".toList ++ said other) =
      some ((⟨.solid, .arrow, none⟩, t.first) :: t.hops) := by
    rw [← hops?_arrow hread', ← hops?_trimStart, List.append_assoc, trimStart_append_of_blank hb,
      hops?_trimStart]
  have hend : sameLetters (said line ++ (blanks ++ " --> ".toList ++ said other)) "end".toList =
      false :=
    sameLetters_eq_false (c := '-') (by simp) (by decide)
  obtain ⟨blank, more, hmore, hblank⟩ : ∃ blank more,
      blanks ++ " --> ".toList ++ said other = blank :: more ∧ isBlank blank = true := by
    cases blanks with
    | nil => exact ⟨' ', _, rfl, by decide⟩
    | cons c blanks => exact ⟨c, _, rfl, hb c List.mem_cons_self⟩
  rw [hmore] at hhops hend hsaid hopen
  have hof : ∀ u, Line.ofText (dropEndWhile (· == ';') line ++ " --> ".toList ++ other) =
      .statement u ↔ Statement.read? (said line ++ blank :: more) = some u := by
    intro u
    rw [Line.ofText_eq_statement_iff, hsaid, hend,
      afterKeyword?_append_eq_none hread hkey (by decide +kernel) hblank]
    simp only [true_and]
  simp only [hof, ← Statement.eq_append_iff, exists_eq_right,
    Statement.read?_append_iff hread hblank, hhops, true_and, hopen]

/-- An opened bracket that stays open. -/
theorem joined_lines_chain_past_open_brackets :
    ∃ u, Line.ofText ("a[/x] -- y --> c([z])".toList ++ " --> ".toList ++ "d((u))".toList) =
        .statement u ∧
      u.mentions = [⟨"a", some ⟨"/x", .rectangle⟩⟩, ⟨"c", some ⟨"z", .stadium⟩⟩,
        ⟨"d", some ⟨"u", .circle⟩⟩] ∧
      u.links = [⟨.solid, .arrow, some "y"⟩, ⟨.solid, .arrow, none⟩] := by
  have hs : Line.ofText "a[/x] -- y --> c([z]);".toList =
      .statement ⟨⟨"a", some ⟨"/x", .rectangle⟩⟩,
        [(⟨.solid, .arrow, some "y"⟩, ⟨"c", some ⟨"z", .stadium⟩⟩)]⟩ := by
    decide +kernel
  have ht : Line.ofText "d((u))".toList = .statement ⟨⟨"d", some ⟨"u", .circle⟩⟩, []⟩ := by
    decide +kernel
  exact (joined_lines_chain_iff hs ht).2 (by decide +kernel)

/-- An opened bracket that the second line closes. -/
theorem joined_lines_close_open_brackets : ∃ s t, Line.ofText "a[/x]".toList = .statement s ∧
    Line.ofText "b[/y/]".toList = .statement t ∧
    ¬ ∃ u, Line.ofText ("a[/x]".toList ++ " --> ".toList ++ "b[/y/]".toList) = .statement u ∧
      u.mentions = s.mentions ++ t.mentions ∧
      u.links = s.links ++ ⟨.solid, .arrow, none⟩ :: t.links := by
  have hjoined : Line.ofText ("a[/x]".toList ++ " --> ".toList ++ "b[/y/]".toList) =
      .statement ⟨⟨"a", some ⟨"x] --> b[/y", .parallelogram⟩⟩, []⟩ := by
    decide +kernel
  refine ⟨⟨⟨"a", some ⟨"/x", .rectangle⟩⟩, []⟩, ⟨⟨"b", some ⟨"y", .parallelogram⟩⟩, []⟩,
    by decide +kernel, by decide +kernel, ?_⟩
  rintro ⟨u, hu, hm, -⟩
  cases hu.symm.trans hjoined
  exact absurd hm (by decide)

end Chartboard.Flow
