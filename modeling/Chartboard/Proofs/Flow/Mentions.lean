import Chartboard.Proofs.Flow.Operators

namespace Chartboard.Flow
open Text

variable {cs text rest more id : List Char} {b : Bracket} {m : Mention}

/-- Brackets that open a text and do not close in it. -/
def Bracket.Dangles (b : Bracket) (cs : List Char) : Prop :=
  ∃ inner, cs = b.opener ++ inner ∧ ¬ b.closer <:+: inner

instance (b : Bracket) (cs : List Char) : Decidable (b.Dangles cs) :=
  decidable_of_iff (∃ inner ∈ after? b.opener cs, contains b.closer inner = false) <| by
    simp only [Bracket.Dangles, contains_eq_false_iff, Option.mem_def, after?_eq_some_iff]

def Bracket.appearance (b : Bracket) (id inner : List Char) : Appearance :=
  let label := unquote (trim inner)
  ⟨String.ofList (if label.isEmpty then id else label), b.shape⟩

/-- Brackets consist of signs, and the first sign opens no word. -/
structure Bracket.IsSigned (b : Bracket) : Prop where
  opener : b.opener ≠ []
  closer : b.closer ≠ []
  word : ∀ c ∈ b.opener.head?, isWordChar c = false
  unblank : ∀ c ∈ b.opener ++ b.closer, isBlank c = false

theorem isSigned_of_mem (h : b ∈ brackets) : b.IsSigned := by
  have hall : ∀ b ∈ brackets, b.opener ≠ [] ∧ b.closer ≠ [] ∧
      b.opener.head?.any isWordChar = false ∧ (b.opener ++ b.closer).any isBlank = false := by
    decide +kernel
  obtain ⟨ho, hc, hw, hb⟩ := hall b h
  refine ⟨ho, hc, fun c hc => ?_, fun c hc => ?_⟩
  · rwa [Option.mem_def.1 hc] at hw
  · simpa using List.any_eq_false.1 hb c hc

/-- Of two brackets that open the same text the first ones have the longer signs, so that the others
close where they do, and the shapes differ. -/
theorem brackets_ordered : brackets.Pairwise fun b c => ¬ b.opener <+: c.opener ∧
    (c.opener <+: b.opener → c.closer <:+: b.closer ∧ c.shape ≠ b.shape) := by
  decide

theorem Bracket.read?_eq_none_iff : b.read? id cs = none ↔
    ∀ inner, cs = b.opener ++ inner → ¬ b.closer <:+: inner := by
  have hread : b.read? id cs = none ↔
      ∀ inner, after? b.opener cs = some inner → cut b.closer inner = none := by
    unfold Bracket.read?
    cases after? b.opener cs with
    | none => simp
    | some inner => cases hc : cut b.closer inner <;> simp [hc]
  simp only [hread, after?_eq_some_iff, cut_eq_none_iff]

theorem Bracket.read?_eq_some_iff (hb : b ∈ brackets) {a : Appearance} :
    b.read? id cs = some (a, rest) ↔ ∃ inner, cs = b.opener ++ inner ++ b.closer ++ rest ∧
      cut b.closer (inner ++ b.closer) = some (inner, []) ∧ a = b.appearance id inner := by
  have hn := (isSigned_of_mem hb).closer
  constructor
  · intro h
    simp only [Bracket.read?, Option.bind_eq_bind, Option.bind_eq_some_iff, Option.pure_def,
      after?_eq_some_iff, Prod.exists, Option.some.injEq, Prod.mk.injEq] at h
    obtain ⟨_, rfl, inner, _, hk, rfl, rfl⟩ := h
    obtain ⟨rfl, hc⟩ := (cut_eq_some_iff hn).1 hk
    exact ⟨inner, by simp, hc, rfl⟩
  · rintro ⟨inner, rfl, hc, rfl⟩
    have hk := (cut_append_iff hn inner rest).2 hc
    simp only [List.append_assoc] at hk ⊢
    simp only [Bracket.read?, Option.bind_eq_bind, after?_append, Option.bind_some, hk]
    rfl

/-- What may stand between an id and the text behind its mention: nothing if no brackets open
there, or the first brackets that close. -/
inductive Annotates (id : List Char) : Option Appearance → List Char → List Char → Prop
  | bare {rest : List Char} (hw : ∀ c ∈ rest.head?, isWordChar c = false)
    (hb : ∀ b ∈ brackets, ¬ b.opener <+: rest) : Annotates id none [] rest
  | bracketed {before after : List Bracket} {b : Bracket} {inner rest : List Char}
    (he : brackets = before ++ b :: after)
    (hn : ∀ c ∈ before, c.read? id (b.opener ++ inner ++ b.closer ++ rest) = none)
    (hc : cut b.closer (inner ++ b.closer) = some (inner, [])) :
    Annotates id (some (b.appearance id inner)) (b.opener ++ inner ++ b.closer) rest

theorem Annotates.not_word {a : Option Appearance} (h : Annotates id a text rest) :
    ∀ c ∈ (text ++ rest).head?, isWordChar c = false := by
  cases h with
  | bare hw hb => exact hw
  | @bracketed before after b inner rest he hn hc =>
    have hb := isSigned_of_mem (b := b) (by simp [he])
    obtain ⟨c, r, hr⟩ := List.exists_cons_of_ne_nil hb.opener
    have hw := hb.word
    rw [hr] at hw
    simpa [hr] using hw

theorem Mention.read?_eq_some_iff : Mention.read? cs = some (m, rest) ↔
    ∃ id text, cs = id ++ (text ++ rest) ∧ IsWord id ∧ m.id = String.ofList id ∧
      Annotates id m.appearance text rest := by
  constructor
  · intro h
    have hsplit := List.takeWhile_append_dropWhile (p := isWordChar) (l := cs)
    have hhead := List.head?_dropWhile_not isWordChar cs
    have hword : ∀ c ∈ cs.takeWhile isWordChar, isWordChar c = true :=
      List.all_eq_true.1 List.all_takeWhile
    simp only [Mention.read?] at h
    generalize cs.takeWhile isWordChar = id, cs.dropWhile isWordChar = behind at *
    subst hsplit
    split at h
    · cases h
    next hne =>
    have hid : IsWord id := ⟨fun he => hne (List.isEmpty_iff.2 he), hword⟩
    split at h
    · obtain ⟨⟨a, r⟩, ha, he⟩ := Option.map_eq_some_iff.1 h
      cases he
      obtain ⟨before, b, after, hb, hr, hn⟩ := List.findSome?_eq_some_iff.1 ha
      obtain ⟨inner, rfl, hc, rfl⟩ := (Bracket.read?_eq_some_iff (by simp [hb])).1 hr
      exact ⟨id, _, rfl, hid, rfl, .bracketed hb hn hc⟩
    · next hany =>
      cases h
      refine ⟨id, [], rfl, hid, rfl, .bare ?_ ?_⟩
      · intro c hc
        rw [Option.mem_def.1 hc] at hhead
        exact hhead
      · simpa [startsWith_eq_false_iff] using hany
  · rintro ⟨id, text, rfl, hid, hm, h⟩
    obtain ⟨ht, hd⟩ := hid.span (text ++ rest) h.not_word
    obtain ⟨_, a⟩ := m
    simp only at hm h
    subst hm
    simp only [Mention.read?, ht, hd, List.isEmpty_eq_false_iff.2 hid.nonempty, Bool.false_eq_true,
      if_false]
    cases h with
    | bare hw hb =>
      have hany : brackets.any (fun b => startsWith b.opener ([] ++ rest)) = false := by
        simpa [startsWith_eq_false_iff] using hb
      rw [hany]
      rfl
    | @bracketed before after b inner rest he hn hc =>
      have hmem : b ∈ brackets := by simp [he]
      have hany : brackets.any (fun b' => startsWith b'.opener
          (b.opener ++ inner ++ b.closer ++ rest)) = true :=
        List.any_eq_true.2 ⟨b, hmem, by simp [startsWith]⟩
      have hr : b.read? id (b.opener ++ inner ++ b.closer ++ rest) =
          some (b.appearance id inner, rest) :=
        (Bracket.read?_eq_some_iff hmem).2 ⟨inner, rfl, hc, rfl⟩
      have hfind : brackets.findSome? (·.read? id (b.opener ++ inner ++ b.closer ++ rest)) =
          some (b.appearance id inner, rest) :=
        List.findSome?_eq_some_iff.2 ⟨before, b, after, he, hr, hn⟩
      rw [hany, hfind]
      rfl

/-- The end of a mention is the end of a word or of brackets. -/
theorem Mention.read?_last (h : Mention.read? (text ++ rest) = some (m, rest)) :
    ∀ c ∈ text.getLast?, c ≠ ';' ∧ isBlank c = false := by
  obtain ⟨id, brackets, he, hid, -, ha⟩ := Mention.read?_eq_some_iff.1 h
  rw [← List.append_assoc, List.append_cancel_right_eq] at he
  subst he
  generalize m.appearance = a at ha
  cases ha with
  | bare => simpa using hid.last []
  | @bracketed before after b inner _ hb _ _ =>
    have hmem : b ∈ Flow.brackets := by simp [hb]
    have hno : ∀ b ∈ Flow.brackets, ';' ∉ b.closer := by decide
    have hs := isSigned_of_mem hmem
    intro c hc
    rw [← List.append_assoc, List.getLast?_append_of_ne_nil _ hs.closer] at hc
    have hlast := List.mem_of_mem_getLast? hc
    exact ⟨fun he => hno b hmem (he ▸ hlast), hs.unblank c (List.mem_append_right _ hlast)⟩

theorem Mention.text_ne_nil (h : Mention.read? (text ++ rest) = some (m, rest)) : text ≠ [] := by
  rintro rfl
  exact absurd (Mention.read?_suffix h).2 (Nat.lt_irrefl _)

theorem Mention.ne_nil_of_read? (h : Mention.read? cs = some (m, rest)) : cs ≠ [] := by
  rintro rfl
  cases h

theorem Bracket.read?_eq_none_of_prefix (h : b.read? id cs = none) (hp : more <+: cs) :
    b.read? id more = none := by
  rw [Bracket.read?_eq_none_iff] at h ⊢
  obtain ⟨t, rfl⟩ := hp
  rintro inner rfl hi
  exact h (inner ++ t) (List.append_assoc _ _ _) (hi.trans (List.infix_append [] inner t))

theorem Annotates.of_prefix {a : Option Appearance} (h : Annotates id a text rest)
    (hp : more <+: rest) : Annotates id a text more := by
  cases h with
  | bare hw hb =>
    refine .bare ?_ fun b hm ho => hb b hm (ho.trans hp)
    intro c hc
    obtain ⟨t, rfl⟩ := hp
    exact hw c (by rw [List.head?_append, Option.mem_def.1 hc]; rfl)
  | bracketed he hn hc =>
    refine .bracketed he (fun c hm => ?_) hc
    exact Bracket.read?_eq_none_of_prefix (hn c hm) ((List.prefix_append_right_inj _).2 hp)

/-- With less text behind it a mention is read as before, since no more brackets close. -/
theorem Mention.read?_of_prefix (h : Mention.read? (text ++ rest) = some (m, rest))
    (hp : more <+: rest) : Mention.read? (text ++ more) = some (m, more) := by
  obtain ⟨id, brackets, he, hid, hm, ha⟩ := Mention.read?_eq_some_iff.1 h
  rw [← List.append_assoc, List.append_cancel_right_eq] at he
  subst he
  exact Mention.read?_eq_some_iff.2
    ⟨id, brackets, List.append_assoc _ _ _, hid, hm, ha.of_prefix hp⟩

/-- Brackets that open the same text as the first ones that close in it: either they come first and
draw another shape, or they close inside the first ones. -/
theorem brackets_cases {before after : List Bracket} {c : Bracket}
    (he : brackets = before ++ b :: after) (hc : c ∈ brackets) (hb : b.opener <+: cs)
    (ho : c.opener <+: cs) : (c ∈ before ∧ c.shape ≠ b.shape) ∨ c = b ∨
      (c.opener <+: b.opener ∧ c.closer <:+: b.closer ∧ c.shape ≠ b.shape) := by
  have hordered := brackets_ordered
  rw [he, List.pairwise_append, List.pairwise_cons] at hordered
  obtain ⟨-, ⟨hafter, -⟩, hbefore⟩ := hordered
  rw [he, List.mem_append, List.mem_cons] at hc
  rcases hc with hc | rfl | hc
  · obtain ⟨hno, hyes⟩ := hbefore c hc b List.mem_cons_self
    have hp := (List.prefix_or_prefix_of_prefix hb ho).resolve_right hno
    exact .inl ⟨hc, (hyes hp).2.symm⟩
  · exact .inr (.inl rfl)
  · obtain ⟨hno, hyes⟩ := hafter c hc
    have hp := (List.prefix_or_prefix_of_prefix ho hb).resolve_right hno
    exact .inr (.inr ⟨hp, hyes hp⟩)

/-- Brackets that do not close in a text close behind it only if they dangle from it. -/
theorem Bracket.read?_append_eq_none {blank : Char} (hm : b ∈ brackets) (hb : isBlank blank = true)
    (h : b.read? id cs = none) (hd : b.Dangles cs → ¬ b.closer <:+: blank :: more) :
    b.read? id (cs ++ blank :: more) = none := by
  have hs := isSigned_of_mem hm
  have hno : ∀ {mark : List Char}, mark ⊆ b.opener ++ b.closer → blank ∉ mark := by
    intro mark hsub hmem
    rw [hs.unblank blank (hsub hmem)] at hb
    cases hb
  rw [Bracket.read?_eq_none_iff] at h ⊢
  intro inner he hi
  obtain ⟨r, rfl⟩ : b.opener <+: cs :=
    prefix_of_barrier (hno (List.subset_append_left _ _)) cs more ⟨inner, he.symm⟩
  rw [List.append_assoc, List.append_cancel_left_eq] at he
  subst he
  have hr := h r rfl
  rcases infix_of_barrier (hno (List.subset_append_right _ _)) hs.closer hi with hi | hi
  · exact hr hi
  · exact hd ⟨r, rfl, hr⟩ (List.infix_cons hi)

theorem Annotates.append {a : Option Appearance} {blank : Char} (h : Annotates id a text rest)
    (hb : isBlank blank = true)
    (hd : ∀ b ∈ brackets, b.Dangles (text ++ rest) → ¬ b.closer <:+: blank :: more) :
    Annotates id a text (rest ++ blank :: more) := by
  cases h with
  | bare hw ho =>
    refine .bare ?_ fun b hm hp => ?_
    · intro c hc
      cases rest with
      | nil =>
        cases hc
        exact not_wordChar_of_blank hb
      | cons d rest => exact hw c hc
    · have hs := isSigned_of_mem hm
      refine ho b hm (prefix_of_barrier (fun hmem => ?_) rest more hp)
      rw [hs.unblank blank (List.mem_append_left _ hmem)] at hb
      cases hb
  | @bracketed before after b inner rest he hn hc =>
    refine .bracketed he (fun c hm => ?_) hc
    have hmem : c ∈ brackets := by simp [he, hm]
    have hnone := Bracket.read?_append_eq_none hmem hb (hn c hm) (hd c hmem)
    rwa [List.append_assoc] at hnone

/-- Brackets that dangle from a mention cannot close behind it and leave its appearance: they come
before the ones that it is read with, and draw another shape. -/
theorem Annotates.not_closes {a : Option Appearance} {other after : List Char}
    (h : Annotates id a text rest) (ho : Annotates id a other after)
    (he : other ++ after = text ++ rest ++ more) (hb : b ∈ brackets)
    (hd : b.Dangles (text ++ rest)) : ¬ b.closer <:+: more := by
  obtain ⟨r, hr, hn⟩ := hd
  intro hm
  have hopen : b.opener <+: text ++ rest ++ more := by
    rw [hr, List.append_assoc]
    exact List.prefix_append _ _
  cases h with
  | bare _ hno => exact hno b hb ⟨r, hr.symm⟩
  | @bracketed before tail c inner rest hc _ _ =>
    generalize ha : some (c.appearance id inner) = a at ho
    cases ho with
    | bare => cases ha
    | @bracketed before' tail' c' inner' after hc' hn' _ =>
      have hshape : c'.shape = c.shape := congrArg Appearance.shape (Option.some.inj ha).symm
      have hcopen : c.opener <+: c.opener ++ inner ++ c.closer ++ rest ++ more := by simp
      have hcopen' : c'.opener <+: c.opener ++ inner ++ c.closer ++ rest ++ more := by
        rw [← he]
        simp
      obtain rfl : c' = c := by
        rcases brackets_cases hc (by simp [hc']) hcopen hcopen' with ⟨-, hs⟩ | rfl | ⟨-, -, hs⟩
        · exact absurd hshape hs
        · rfl
        · exact absurd hshape hs
      have hinside : ¬ (b.opener <+: c'.opener ∧ b.closer <:+: c'.closer) := by
        rintro ⟨⟨x, hx⟩, hi⟩
        rw [← hx] at hr
        simp only [List.append_assoc, List.append_cancel_left_eq] at hr
        refine hn (hi.trans ⟨x ++ inner, rest, ?_⟩)
        simp [← hr]
      rcases brackets_cases hc' hb hcopen hopen with ⟨hbefore, -⟩ | rfl | ⟨hp, hi, -⟩
      · refine Bracket.read?_eq_none_iff.1 (hn' b hbefore) (r ++ more) ?_
          (hm.trans (List.suffix_append r more).isInfix)
        rw [he, hr, List.append_assoc]
      · exact hinside ⟨List.prefix_refl _, List.infix_refl _⟩
      · exact hinside ⟨hp, hi⟩

/-- With more text behind it, from a blank on, a mention is read as before exactly if that text
closes no brackets that dangle from the mention. -/
theorem Mention.read?_append_iff {blank : Char} (h : Mention.read? cs = some (m, rest))
    (hb : isBlank blank = true) {after : List Char} :
    Mention.read? (cs ++ blank :: more) = some (m, after) ↔ after = rest ++ blank :: more ∧
      ∀ b ∈ brackets, b.Dangles (cs.dropWhile isWordChar) → ¬ b.closer <:+: blank :: more := by
  obtain ⟨id, text, rfl, hid, hm, ha⟩ := Mention.read?_eq_some_iff.1 h
  rw [(hid.span (text ++ rest) ha.not_word).2]
  have hback : (∀ b ∈ brackets, b.Dangles (text ++ rest) → ¬ b.closer <:+: blank :: more) →
      Mention.read? (id ++ (text ++ rest) ++ blank :: more) = some (m, rest ++ blank :: more) :=
    fun hd => Mention.read?_eq_some_iff.2 ⟨id, text, by simp, hid, hm, ha.append hb hd⟩
  constructor
  · intro hread
    have hd : ∀ b ∈ brackets, b.Dangles (text ++ rest) → ¬ b.closer <:+: blank :: more := by
      obtain ⟨id', other, he, hid', hm', ho⟩ := Mention.read?_eq_some_iff.1 hread
      obtain rfl : id' = id := String.ofList_injective (hm'.symm.trans hm)
      intro b hmem hdangles
      exact ha.not_closes ho (by simpa using he.symm) hmem hdangles
    rw [hback hd] at hread
    cases hread
    exact ⟨rfl, hd⟩
  · rintro ⟨rfl, hd⟩
    exact hback hd

end Chartboard.Flow
