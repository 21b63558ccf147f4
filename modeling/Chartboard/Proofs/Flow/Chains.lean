import Chartboard.Proofs.Flow.Mentions
import Chartboard.Proofs.Text.Bytes

namespace Chartboard.Flow
open Text

variable {cs rest more : List Char} {hops tail : List (Link × Mention)} {link : Link} {m : Mention}
  {s : Statement}

/-- The mentions that the links of a text lead to: for each of them the text from there on, and the
text behind it. -/
def placesBehind (cs : List Char) : List (List Char × List Char) :=
  match hl : Link.read? cs with
  | none => []
  | some (_, place) =>
    match hm : Mention.read? place with
    | none => []
    | some (_, rest) =>
      have := Link.read?_suffix hl
      have := Mention.read?_suffix hm
      (place, rest) :: placesBehind rest
termination_by cs.length
decreasing_by omega

/-- The mentions of a line from its start on, in the same way. -/
def places (cs : List Char) : List (List Char × List Char) :=
  match Mention.read? cs with
  | none => []
  | some (_, rest) => (cs, rest) :: placesBehind rest

theorem placesBehind_of_read {place : List Char} (hl : Link.read? cs = some (link, place))
    (hm : Mention.read? place = some (m, rest)) :
    placesBehind cs = (place, rest) :: placesBehind rest := by
  rw [placesBehind]
  split
  · next h => simp [hl] at h
  · next h =>
    rw [hl] at h
    cases h
    split
    · next h => simp [hm] at h
    · next h =>
      rw [hm] at h
      cases h
      rfl

theorem operator?_nil : operator? [] = none := rfl

theorem Link.read?_of_blank (h : trimStart cs = []) : Link.read? cs = none := by
  rw [Link.read?, h, operator?_nil]
  rfl

theorem placesBehind_of_blank (h : trimStart cs = []) : placesBehind cs = [] := by
  rw [placesBehind]
  split
  · rfl
  · next hl =>
    rw [Link.read?_of_blank h] at hl
    cases hl

theorem hops?_of_link {place : List Char} (hl : Link.read? cs = some (link, place)) :
    hops? cs = (Mention.read? place).bind fun y => (hops? y.2).map ((link, y.1) :: ·) := by
  rw [hops?_eq, hl, if_neg]
  · rfl
  · intro he
    rw [Link.read?_of_blank he] at hl
    cases hl

theorem exists_link (h : hops? cs = some hops) (hs : hops ≠ []) :
    ∃ link place, Link.read? cs = some (link, place) := by
  rw [hops?_eq] at h
  split at h
  · cases h
    exact absurd rfl hs
  · obtain ⟨⟨link, place⟩, hl, -⟩ := Option.bind_eq_some_iff.1 h
    exact ⟨link, place, hl⟩

theorem hops?_trimStart (cs : List Char) : hops? (trimStart cs) = hops? cs := by
  rw [hops?_eq, hops?_eq cs, Link.read?, Link.read?, trimStart_trimStart]

theorem Link.read?_append_right {place : List Char} (h : Link.read? cs = some (link, place))
    (hn : place ≠ []) (more : List Char) :
    Link.read? (cs ++ more) = some (link, place ++ more) := by
  obtain ⟨text, rfl⟩ := (Link.read?_suffix h).1
  rw [List.append_assoc]
  refine Link.read?_congr h ?_
  obtain ⟨c, r, rfl⟩ := List.exists_cons_of_ne_nil hn
  rfl

/-- Whether a text closes no brackets that dangle from the mention at a place before it. -/
def LeavesOpen (place more : List Char) : Prop :=
  ∀ b ∈ brackets, b.Dangles (place.dropWhile isWordChar) → ¬ b.closer <:+: more

instance (place more : List Char) : Decidable (LeavesOpen place more) :=
  decidable_of_iff (∀ b ∈ brackets, b.Dangles (place.dropWhile isWordChar) →
    contains b.closer more = false)
    (forall₂_congr fun _ _ => imp_congr_right fun _ => contains_eq_false_iff)

/-- A chain goes on behind a blank as the links there lead on, exactly if no brackets of its
mentions are closed there. -/
theorem hops?_append_iff {blank : Char} (h : hops? cs = some hops) (hb : isBlank blank = true) :
    hops? (cs ++ blank :: more) = some (hops ++ tail) ↔ hops? (blank :: more) = some tail ∧
      ∀ p ∈ placesBehind cs, LeavesOpen p.1 (blank :: more) := by
  fun_induction hops? cs generalizing hops with
  | case1 cs he =>
    cases h
    have ht := List.isEmpty_iff.1 he
    have hblank : ∀ c ∈ cs, isBlank c = true := by
      simpa [trimStart, List.dropWhile_eq_nil_iff] using ht
    rw [← hops?_trimStart, trimStart_append_of_blank hblank, hops?_trimStart,
      placesBehind_of_blank ht]
    simp
  | case2 => cases h
  | case3 => cases h
  | case4 cs he link place hl m rest hm _ _ ih =>
    obtain ⟨later, hr, rfl⟩ := Option.map_eq_some_iff.1 h
    have hl' := Link.read?_append_right hl (Mention.ne_nil_of_read? hm) (blank :: more)
    have hiff : hops? (cs ++ blank :: more) = some ((link, m) :: later ++ tail) ↔
        ∃ after, Mention.read? (place ++ blank :: more) = some (m, after) ∧
          hops? after = some (later ++ tail) := by
      simp [hops?_of_link hl', Option.bind_eq_some_iff]
    rw [hiff, placesBehind_of_read hl hm, List.forall_mem_cons]
    simp only [Mention.read?_append_iff hm hb, and_assoc, exists_eq_left, ih hr]
    exact and_left_comm

theorem Statement.read?_append_iff {blank : Char} (h : Statement.read? cs = some s)
    (hb : isBlank blank = true) :
    Statement.read? (cs ++ blank :: more) = some ⟨s.first, s.hops ++ tail⟩ ↔
      hops? (blank :: more) = some tail ∧ ∀ p ∈ places cs, LeavesOpen p.1 (blank :: more) := by
  obtain ⟨rest, hm, hr⟩ := Statement.read?_eq_some_iff.1 h
  have hplaces : places cs = (cs, rest) :: placesBehind rest := by rw [places, hm]
  rw [Statement.read?_eq_some_iff, hplaces, List.forall_mem_cons]
  simp only [Mention.read?_append_iff hm hb, and_assoc, exists_eq_left, hops?_append_iff hr hb]
  exact and_left_comm

theorem Statement.read?_word (h : Statement.read? cs = some s) : ∃ id rest, cs = id ++ rest ∧
    IsWord id ∧ ∀ c ∈ rest.head?, isWordChar c = false := by
  obtain ⟨rest, hm, -⟩ := Statement.read?_eq_some_iff.1 h
  obtain ⟨id, text, rfl, hid, -, ha⟩ := Mention.read?_eq_some_iff.1 hm
  exact ⟨id, text ++ rest, rfl, hid, ha.not_word⟩

theorem Statement.ne_nil_of_read? (h : Statement.read? cs = some s) : cs ≠ [] := by
  rintro rfl
  cases h

theorem Statement.read?_head (h : Statement.read? cs = some s) :
    ∀ c ∈ cs.head?, isBlank c = false := by
  obtain ⟨id, rest, rfl, hid, -⟩ := Statement.read?_word h
  exact hid.head rest

theorem Statement.read?_stroke (h : Statement.read? cs = some s) (hs : s.hops ≠ []) :
    ∃ c ∈ cs, c = '-' ∨ c = '=' := by
  obtain ⟨behind, hm, hr⟩ := Statement.read?_eq_some_iff.1 h
  obtain ⟨link, place, hl⟩ := exists_link hr hs
  obtain ⟨-, c, hc, hstroke⟩ := Link.read?_starts hl
  exact ⟨c, (Mention.read?_suffix hm).1.subset hc, hstroke⟩

/-- Before the rest of a chain a bare id is read as a mention without brackets. -/
theorem Statement.read?_bare {id : List Char} (hid : IsWord id) (h : hops? rest = some hops)
    (hs : hops ≠ []) : Statement.read? (id ++ rest) = some ⟨⟨String.ofList id, none⟩, hops⟩ := by
  obtain ⟨link, place, hl⟩ := exists_link h hs
  obtain ⟨hhead, -⟩ := Link.read?_starts hl
  have hopeners : ∀ b ∈ brackets, '-' ∉ b.opener ∧ '=' ∉ b.opener := by decide
  have hno : brackets.any (fun b => startsWith b.opener rest) = false := by
    rw [List.any_eq_false]
    intro b hb
    have hsigned := isSigned_of_mem hb
    rw [Bool.not_eq_true, startsWith_eq_false_iff]
    rintro ⟨after, rfl⟩
    obtain ⟨c, r, hr⟩ := List.exists_cons_of_ne_nil hsigned.opener
    have hc : c ∈ b.opener := hr ▸ List.mem_cons_self
    have hblank := hsigned.unblank c (List.mem_append_left _ hc)
    obtain ⟨hdash, hequals⟩ := hopeners b hb
    rcases hhead c (by simp [hr]) with h | h | h
    · rw [hblank] at h
      cases h
    · exact hdash (h ▸ hc)
    · exact hequals (h ▸ hc)
  exact Statement.read?_eq_some_iff.2
    ⟨rest, Mention.read?_bare hid rest (Link.read?_not_word hl) hno, h⟩

/-- What a line says without the semicolons at its end. -/
def said (cs : List Char) : List Char :=
  trimEnd (dropEndWhile (· == ';') cs)

/-- Behind what a line says stand semicolons and blanks. -/
theorem exists_said (cs : List Char) :
    ∃ tail, (∀ c ∈ tail, c = ';' ∨ isBlank c = true) ∧ cs = said cs ++ tail := by
  obtain ⟨blanks, hb, hblanks⟩ := exists_blanks (dropEndWhile (· == ';') cs)
  obtain ⟨signs, hs, hsigns⟩ := exists_dropped (· == ';') cs
  refine ⟨blanks ++ signs, fun c hc => ?_, ?_⟩
  · rcases List.mem_append.1 hc with hc | hc
    · exact .inr (hb c hc)
    · exact .inl (beq_iff_eq.1 (hs c hc))
  · rw [said, ← List.append_assoc, hblanks, hsigns]

theorem said_eq_self (h : ∀ c ∈ cs.getLast?, c ≠ ';' ∧ isBlank c = false) : said cs = cs := by
  rw [said, dropEndWhile_eq_self fun c hc => beq_eq_false_iff_ne.2 (h c hc).1]
  exact dropEndWhile_eq_self fun c hc => (h c hc).2

theorem said_append (h : said more ≠ []) (cs : List Char) :
    said (cs ++ more) = cs ++ said more := by
  have hd : dropEndWhile (· == ';') more ≠ [] := by
    intro he
    rw [said, he] at h
    exact h rfl
  rw [said, dropEndWhile_append hd, trimEnd, dropEndWhile_append h]
  rfl

/-- Behind an indent, a trimmed row says what it says without the text before a stroke. -/
theorem said_trim_append {c : Char} (hc : c ∈ more) (hstroke : c = '-' ∨ c = '=')
    (hs : ∀ c ∈ start.head?, isBlank c = false) (hne : start ≠ []) :
    said (trim (start ++ more)) = start ++ said (trimEnd more) := by
  have hb : isBlank c = false ∧ (c == ';') = false := by
    rcases hstroke with rfl | rfl
    · decide
    · decide
  have hmore : c ∈ trimEnd more := mem_dropEndWhile hc hb.1
  have hsaid : c ∈ said (trimEnd more) := mem_dropEndWhile (mem_dropEndWhile hmore hb.2) hb.1
  have htrim : trim (start ++ more) = start ++ trimEnd more := by
    have hhead : ∀ c ∈ (start ++ more).head?, isBlank c = false := by
      obtain ⟨d, r, rfl⟩ := List.exists_cons_of_ne_nil hne
      exact hs
    rw [trim, trimStart_eq_self hhead, trimEnd, dropEndWhile_append (List.ne_nil_of_mem hmore)]
    rfl
  rw [htrim, said_append (List.ne_nil_of_mem hsaid)]

theorem Line.ofText_eq_statement_iff : Line.ofText cs = .statement s ↔
    sameLetters (said cs) "end".toList = false ∧
      afterKeyword? "subgraph".toList (said cs) = none ∧ Statement.read? (said cs) = some s := by
  unfold Line.ofText said
  simp only
  generalize "end".toList = ending, "subgraph".toList = opening
  split
  · next he => simp [he]
  · next he =>
    split
    · next hs => simp [hs]
    · next hs =>
      split
      · next hr => simp [he, hs, hr]
      · next hr => simp [hr]

theorem Line.ofText_chain (h : Statement.read? cs = some s) (hs : s.hops ≠ [])
    (hsaid : said more = cs) (hk : afterKeyword? "subgraph".toList cs = none) :
    Line.ofText more = .statement s := by
  obtain ⟨c, hc, hstroke⟩ := Statement.read?_stroke h hs
  refine Line.ofText_eq_statement_iff.2 ⟨?_, hsaid ▸ hk, hsaid ▸ h⟩
  rw [hsaid]
  refine sameLetters_eq_false hc ?_
  rcases hstroke with rfl | rfl
  · decide
  · decide

theorem isWordChar_of_toLower {c : Char} (h : isWordChar c.toLower = true) :
    isWordChar c = true := by
  have hcapitals : ∀ n ∈ List.range' 65 26, inRanges n alphanumericRanges = true := by
    decide +kernel
  unfold Char.toLower at h
  split at h
  · next hc =>
    have hlow : 65 ≤ c.toNat := UInt32.le_iff_toNat_le.1 hc.1
    have hhigh : c.toNat ≤ 90 := UInt32.le_iff_toNat_le.1 hc.2
    have hn := hcapitals c.toNat (List.mem_range'_1.2 ⟨hlow, by omega⟩)
    rw [isWordChar, isAlphanumeric, hn, Bool.true_or]
  · exact h

/-- A line that starts with a word opens with a keyword exactly if the word is the keyword, and a
blank or nothing follows it. -/
theorem afterKeyword?_word {id keyword : List Char} (rest : List Char)
    (hk : (keyword.map Char.toLower).all isWordChar = true) (hid : IsWord id)
    (hr : ∀ c ∈ rest.head?, isWordChar c = false) :
    afterKeyword? keyword (id ++ rest) = none ↔
      (sameLetters id keyword = true → rest.head?.all isBlank = false) := by
  have hno : ∀ c ∈ rest.head?, c.toLower ∉ keyword.map Char.toLower := by
    intro c hc hm
    have hword := hr c hc
    rw [isWordChar_of_toLower (List.all_eq_true.1 hk _ hm)] at hword
    cases hword
  rw [afterKeyword?_solid hid.not_blank hno]
  cases sameLetters id keyword <;> cases rest.head?.all isBlank <;> simp

end Chartboard.Flow
