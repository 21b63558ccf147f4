import Chartboard.Proofs.Flow.WellFormed

namespace Chartboard.Flow
open Text

variable {cs text rest more : List Char} {fill : Char} {stroke : Stroke} {cap : Cap} {link : Link}

theorem run_eq_iff {n : Nat} : run fill cs = (n, rest) ↔
    cs = List.replicate n fill ++ rest ∧ rest.head? ≠ some fill := by
  constructor
  · intro h
    obtain ⟨rfl, rfl⟩ := Prod.mk.inj h
    constructor
    · have he : cs.takeWhile (· == fill) =
          List.replicate (cs.takeWhile (· == fill)).length fill := by
        rw [List.eq_replicate_length]
        intro c hc
        simpa using List.all_eq_true.1 List.all_takeWhile c hc
      rw [← he, List.takeWhile_append_dropWhile]
    · intro hf
      have := List.head?_dropWhile_not (· == fill) cs
      rw [hf] at this
      simp at this
  · rintro ⟨rfl, hr⟩
    have ht : rest.takeWhile (· == fill) = [] ∧ rest.dropWhile (· == fill) = rest := by
      cases rest with
      | nil => simp
      | cons c r =>
        rw [List.head?_cons, ne_eq, Option.some.injEq] at hr
        simp [hr]
    have hp : ∀ c ∈ List.replicate n fill, (c == fill) = true := by
      intro c hc
      exact beq_iff_eq.2 (List.eq_of_mem_replicate hc)
    rw [run, List.takeWhile_append_of_pos hp, List.dropWhile_append_of_pos hp, ht.1, ht.2]
    simp

/-- The letters that end an operator, each with its cap. -/
inductive Ends : Char → Cap → Prop
  | circle : Ends 'o' .filledCircle
  | cross : Ends 'x' .cross

theorem letter?_eq_some_iff : letter? cs = some (cap, rest) ↔
    ∃ l c r, cs = l :: c :: r ∧ rest = c :: r ∧ Ends l cap ∧ (isBlank c || c == '|') = true := by
  constructor
  · intro h
    unfold letter? at h
    split at h
    · next c r =>
      split at h
      · next hc =>
        cases h
        exact ⟨'o', c, r, rfl, rfl, .circle, hc⟩
      · cases h
    · next c r =>
      split at h
      · next hc =>
        cases h
        exact ⟨'x', c, r, rfl, rfl, .cross, hc⟩
      · cases h
    · cases h
  · rintro ⟨l, c, r, rfl, rfl, he, hc⟩
    cases he with
    | circle => rw [letter?, if_pos hc]
    | cross => rw [letter?, if_pos hc]

/-- The texts of operators without dots and labels, each with the character after it. -/
inductive Closes (fill : Char) : Cap → List Char → Option Char → Prop
  | arrow (n : Nat) (next : Option Char) (hn : 2 ≤ n) :
    Closes fill .arrow (List.replicate n fill ++ ['>']) next
  | plain (n : Nat) (next : Option Char) (hn : 3 ≤ n) (hf : next ≠ some fill)
    (hg : next ≠ some '>') : Closes fill .none (List.replicate n fill) next
  | letter (cap : Cap) (l c : Char) (hf : fill = '-') (hl : Ends l cap)
    (hc : (isBlank c || c == '|') = true) : Closes fill cap [fill, fill, l] (some c)

theorem Fills.ne (hf : Fills stroke fill) : fill ≠ '>' ∧ fill ≠ '.' ∧ isBlank fill = false := by
  cases hf with
  | solid => decide
  | thick => decide

theorem closed?_eq_some_iff (hf : Fills stroke fill) : closed? fill cs = some (cap, rest) ↔
    ∃ text, cs = text ++ rest ∧ Closes fill cap text rest.head? := by
  constructor
  · intro h
    unfold closed? at h
    split at h
    · next n r hr =>
      obtain ⟨rfl, -⟩ := run_eq_iff.1 hr
      split at h
      · next hn =>
        cases h
        exact ⟨_, by simp, .arrow n _ hn⟩
      · cases h
    · next n r hg hr =>
      obtain ⟨rfl, hd⟩ := run_eq_iff.1 hr
      split at h
      · next hn =>
        cases h
        refine ⟨_, rfl, .plain n _ hn hd ?_⟩
        intro he
        obtain ⟨r', rfl⟩ := List.head?_eq_some_iff.1 he
        exact hg r' rfl
      · split at h
        · next hn =>
          obtain ⟨rfl, rfl⟩ := hn
          obtain ⟨l, c, r, rfl, rfl, hl, hc⟩ := letter?_eq_some_iff.1 h
          exact ⟨['-', '-', l], rfl, .letter cap l c rfl hl hc⟩
        · cases h
  · rintro ⟨text, rfl, h⟩
    generalize hh : rest.head? = next at h
    cases h with
    | arrow n next hn =>
      have hr : run fill (List.replicate n fill ++ ['>'] ++ rest) = (n, '>' :: rest) :=
        run_eq_iff.2 ⟨by simp, by simpa using hf.ne.1.symm⟩
      rw [closed?, hr]
      exact if_pos hn
    | plain n next hn hd hg =>
      have hr : run fill (List.replicate n fill ++ rest) = (n, rest) :=
        run_eq_iff.2 ⟨rfl, hh ▸ hd⟩
      unfold closed?
      rw [hr]
      split
      · next he =>
        cases he
        exact absurd hh (Ne.symm hg)
      · next he =>
        cases he
        rw [if_pos hn]
    | letter cap l c hd hl hc =>
      subst hd
      obtain ⟨r, rfl⟩ := List.head?_eq_some_iff.1 hh
      have hs : letter? (l :: c :: r) = some (cap, c :: r) :=
        letter?_eq_some_iff.2 ⟨l, c, r, rfl, rfl, hl, hc⟩
      cases hl with
      | circle => simp [closed?, run, hs]
      | cross => simp [closed?, run, hs]

/-- The texts of dotted operators. -/
inductive Dots : Cap → List Char → Option Char → Prop
  | arrow (n : Nat) (next : Option Char) :
    Dots .arrow (['-', '.'] ++ List.replicate n '.' ++ ['-', '>']) next
  | plain (n : Nat) (next : Option Char) (hg : next ≠ some '>') :
    Dots .none (['-', '.'] ++ List.replicate n '.' ++ ['-']) next

theorem dotted?_eq_some_iff : dotted? cs = some (cap, rest) ↔
    ∃ text, cs = text ++ rest ∧ Dots cap text rest.head? := by
  constructor
  · intro h
    unfold dotted? at h
    split at h
    · next cs =>
      have hr := run_eq_iff.1 (rfl : run '.' cs = (_, cs.dropWhile (· == '.')))
      split at h
      · next he =>
        cases h
        rw [he] at hr
        exact ⟨_, by simpa using hr.1, .arrow _ _⟩
      · next r hg he =>
        cases h
        rw [he] at hr
        refine ⟨_, by simpa using hr.1, .plain _ _ ?_⟩
        intro hh
        obtain ⟨r', rfl⟩ := List.head?_eq_some_iff.1 hh
        exact hg r' rfl
      · cases h
    · cases h
  · rintro ⟨text, rfl, h⟩
    generalize hh : rest.head? = next at h
    cases h with
    | arrow n next =>
      have hr := congrArg Prod.snd (run_eq_iff.2 ⟨rfl, by simp⟩ :
        run '.' (List.replicate n '.' ++ '-' :: '>' :: rest) = (n, '-' :: '>' :: rest))
      simp only [run] at hr
      simp [dotted?, hr]
    | plain n next hg =>
      have hr := congrArg Prod.snd (run_eq_iff.2 ⟨rfl, by simp⟩ :
        run '.' (List.replicate n '.' ++ '-' :: rest) = (n, '-' :: rest))
      have he : ['-', '.'] ++ List.replicate n '.' ++ ['-'] ++ rest =
          '-' :: '.' :: (List.replicate n '.' ++ '-' :: rest) := by simp
      simp only [run] at hr
      rw [he, dotted?, hr]
      split
      · next he =>
        cases he
        exact absurd hh (Ne.symm hg)
      · next he =>
        cases he
        rfl
      · next hn => exact absurd rfl (hn rest)

/-- A caption between two pairs of strokes: it starts with a blank and ends at the first pair. -/
structure IsCaption (fill : Char) (caption : List Char) : Prop where
  blank : ∃ b ∈ caption.head?, isBlank b = true
  first : cut [fill, fill] (caption ++ [fill, fill]) = some (caption, [])

theorem IsCaption.run {caption : List Char} (h : IsCaption fill caption) (hf : Fills stroke fill)
    (rest : List Char) : run fill ([fill, fill] ++ caption ++ rest) = (2, caption ++ rest) := by
  obtain ⟨b, hb, hblank⟩ := h.blank
  obtain ⟨r, rfl⟩ := List.head?_eq_some_iff.1 hb
  refine run_eq_iff.2 ⟨by simp [List.replicate_succ], ?_⟩
  intro he
  cases he
  rw [hf.ne.2.2] at hblank
  cases hblank

theorem captioned?_eq_some_iff {label : Option String} (hf : Fills stroke fill) :
    captioned? fill cs = some (label, rest) ↔
      ∃ caption after, cs = [fill, fill] ++ caption ++ rest ∧ rest = [fill, fill] ++ after ∧
        IsCaption fill caption ∧ label = label? caption := by
  constructor
  · intro h
    unfold captioned? at h
    split at h
    · next b tail hr =>
      split at h
      · next hb =>
        obtain ⟨⟨caption, after⟩, hc, he⟩ := Option.map_eq_some_iff.1 h
        cases he
        obtain ⟨hcs, -⟩ := run_eq_iff.1 hr
        obtain ⟨ht, hfirst⟩ := (cut_eq_some_iff (by simp)).1 hc
        refine ⟨caption, after, by simp [hcs, ht, List.replicate_succ], rfl, ⟨?_, hfirst⟩, rfl⟩
        cases caption with
        | nil =>
          cases ht
          rw [hf.ne.2.2] at hb
          cases hb
        | cons d caption =>
          cases ht
          exact ⟨b, rfl, hb⟩
      · cases h
    · cases h
  · rintro ⟨caption, after, rfl, rfl, hcaption, rfl⟩
    have hr := hcaption.run hf ([fill, fill] ++ after)
    have hc := (cut_append_iff (by simp) caption after).2 hcaption.first
    obtain ⟨b, hb, hblank⟩ := hcaption.blank
    obtain ⟨r, rfl⟩ := List.head?_eq_some_iff.1 hb
    simp only [List.append_assoc, List.cons_append] at hc
    unfold captioned?
    rw [hr]
    simp only [List.cons_append, hblank, if_true, hc]
    rfl

/-- The texts of operators with one stroke from end to end. Of captions inside a caption only the
outermost one stays. -/
inductive Strokes (stroke : Stroke) (fill : Char) : Link → List Char → Option Char → Prop
  | bare {cap : Cap} {text : List Char} {next : Option Char} (h : Closes fill cap text next) :
    Strokes stroke fill ⟨stroke, cap, none⟩ text next
  | captioned {link : Link} {caption text : List Char} {next : Option Char}
    (hc : IsCaption fill caption) (h : Strokes stroke fill link text next) :
    Strokes stroke fill { link with label := label? caption } ([fill, fill] ++ caption ++ text) next

theorem Closes.starts {next : Option Char} (h : Closes fill cap text next) :
    ∃ after, text = [fill, fill] ++ after := by
  cases h with
  | arrow n next hn =>
    obtain ⟨k, rfl⟩ := Nat.exists_eq_add_of_le' hn
    exact ⟨List.replicate k fill ++ ['>'], by simp [List.replicate_succ]⟩
  | plain n next hn hf hg =>
    obtain ⟨k, rfl⟩ := Nat.exists_eq_add_of_le' hn
    exact ⟨List.replicate (k + 1) fill, by simp [List.replicate_succ]⟩
  | letter cap l c hf hl hc => exact ⟨[l], rfl⟩

theorem Strokes.starts {next : Option Char} (h : Strokes stroke fill link text next) :
    ∃ after, text = [fill, fill] ++ after := by
  cases h with
  | bare h => exact h.starts
  | captioned hc h => exact ⟨_, List.append_assoc _ _ _⟩

/-- Two strokes and a blank are no operator yet. -/
theorem IsCaption.closed? {caption : List Char} (h : IsCaption fill caption)
    (hf : Fills stroke fill) (rest : List Char) :
    closed? fill ([fill, fill] ++ caption ++ rest) = none := by
  have hr := h.run hf rest
  obtain ⟨b, hb, hblank⟩ := h.blank
  obtain ⟨r, rfl⟩ := List.head?_eq_some_iff.1 hb
  have hl : letter? (b :: r ++ rest) = none := by
    refine Option.eq_none_iff_forall_ne_some.2 fun ⟨cap, after⟩ hs => ?_
    obtain ⟨l, c, _, he, -, hends, -⟩ := letter?_eq_some_iff.1 hs
    obtain ⟨rfl, -⟩ := List.cons.inj he
    cases hends <;> exact absurd hblank (by decide)
  unfold Flow.closed?
  rw [hr]
  split
  · next he =>
    cases he
    exact absurd hblank (by decide)
  · next he =>
    cases he
    rw [hl]
    simp

theorem stroked?_eq_some_iff (hf : Fills stroke fill) :
    stroked? stroke fill cs = some (link, rest) ↔
      ∃ text, cs = text ++ rest ∧ Strokes stroke fill link text rest.head? := by
  constructor
  · intro h
    fun_induction stroked? stroke fill cs generalizing link rest with
    | case1 cs cap r hc =>
      cases h
      obtain ⟨text, ht, hs⟩ := (closed?_eq_some_iff hf).1 hc
      exact ⟨text, ht, .bare hs⟩
    | case2 => cases h
    | case3 cs _ label r hr _ ih =>
      obtain ⟨⟨inner, after⟩, hi, he⟩ := Option.map_eq_some_iff.1 h
      cases he
      obtain ⟨caption, _, rfl, -, hc, rfl⟩ := (captioned?_eq_some_iff hf).1 hr
      obtain ⟨text, rfl, hs⟩ := ih hi
      exact ⟨_, by simp, .captioned hc hs⟩
  · rintro ⟨text, rfl, h⟩
    generalize hh : rest.head? = next at h
    induction h with
    | bare h =>
      rw [stroked?, (closed?_eq_some_iff hf).2 ⟨_, rfl, hh ▸ h⟩]
    | @captioned link caption text next hc h ih =>
      obtain ⟨after, ht⟩ := h.starts
      have hr : captioned? fill ([fill, fill] ++ caption ++ (text ++ rest)) =
          some (label? caption, text ++ rest) :=
        (captioned?_eq_some_iff hf).2 ⟨caption, after ++ rest, rfl, by simp [ht], hc, rfl⟩
      rw [List.append_assoc, stroked?]
      simp only [hc.closed? hf]
      split
      · next hn =>
        rw [hr] at hn
        cases hn
      · next hs =>
        rw [hr] at hs
        cases hs
        rw [ih hh, Option.map_some]

/-- The texts of operators, each with what it draws and the character after it. -/
inductive Spells : Link → List Char → Option Char → Prop
  | dotted {cap : Cap} {text : List Char} {next : Option Char} (h : Dots cap text next) :
    Spells ⟨.dotted, cap, none⟩ text next
  | stroked {stroke : Stroke} {fill : Char} {link : Link} {text : List Char} {next : Option Char}
    (hf : Fills stroke fill) (h : Strokes stroke fill link text next) : Spells link text next

theorem operator?_eq_some_iff : operator? cs = some (link, rest) ↔
    ∃ text, cs = text ++ rest ∧ Spells link text rest.head? := by
  constructor
  · intro h
    unfold operator? at h
    split at h
    · next hd =>
      cases h
      obtain ⟨text, he, hs⟩ := dotted?_eq_some_iff.1 hd
      exact ⟨text, he, .dotted hs⟩
    · split at h
      · obtain ⟨text, he, hs⟩ := (stroked?_eq_some_iff .solid).1 h
        exact ⟨text, he, .stroked .solid hs⟩
      · obtain ⟨text, he, hs⟩ := (stroked?_eq_some_iff .thick).1 h
        exact ⟨text, he, .stroked .thick hs⟩
      · cases h
  · rintro ⟨text, rfl, h⟩
    generalize hh : rest.head? = next at h
    cases h with
    | dotted h =>
      have hd := dotted?_eq_some_iff.2 ⟨text, rfl, hh ▸ h⟩
      simp only [operator?, hd]
    | stroked hf h =>
      have hs := (stroked?_eq_some_iff hf).2 ⟨text, rfl, hh ▸ h⟩
      obtain ⟨after, rfl⟩ := h.starts
      cases hf with
      | solid => simpa [operator?, dotted?] using hs
      | thick => simpa [operator?, dotted?] using hs

theorem operator?_congr (h : operator? (text ++ rest) = some (link, rest))
    (hh : more.head? = rest.head?) : operator? (text ++ more) = some (link, more) := by
  obtain ⟨op, he, hs⟩ := operator?_eq_some_iff.1 h
  obtain rfl := List.append_cancel_right he
  exact operator?_eq_some_iff.2 ⟨text, rfl, hh ▸ hs⟩

/-- Behind its operator a link has a label between bars, or nothing more. -/
theorem Link.read?_operator_iff : Link.read? cs = some (link, rest) ↔
    ∃ l r, operator? (trimStart cs) = some (l, r) ∧
      ((∃ label after, trimStart r = '|' :: (label ++ '|' :: after) ∧ '|' ∉ label ∧
          rest = trimStart after ∧ link = { l with label := label? label }) ∨
        (rest = trimStart r ∧ rest.head? ≠ some '|' ∧ link = l)) := by
  simp only [Link.read?, Option.bind_eq_bind, Option.bind_eq_some_iff, Prod.exists]
  refine exists₂_congr fun l r => and_congr_right fun _ => ?_
  split
  · next bar heq =>
    simp only [heq, Option.bind_eq_some_iff, Prod.exists, Option.pure_def, Option.some.injEq,
      Prod.mk.injEq, List.cons.injEq, true_and, cut_char_eq_some_iff]
    constructor
    · rintro ⟨label, after, ⟨hn, he⟩, rfl, rfl⟩
      exact .inl ⟨label, after, he, hn, rfl, rfl⟩
    · rintro (⟨label, after, he, hn, rfl, rfl⟩ | ⟨rfl, hne, -⟩)
      · exact ⟨label, after, ⟨hn, he⟩, rfl, rfl⟩
      · exact absurd rfl hne
  · next hbar =>
    constructor
    · intro h
      cases h
      refine .inr ⟨rfl, fun hh => ?_, rfl⟩
      obtain ⟨r', hr'⟩ := List.head?_eq_some_iff.1 hh
      exact hbar r' hr'
    · rintro (⟨label, after, he, -⟩ | ⟨rfl, -, rfl⟩)
      · exact absurd he (hbar _)
      · rfl

theorem Link.read?_head (h : Link.read? cs = some (link, rest)) :
    ∀ c ∈ rest.head?, isBlank c = false := by
  have hstart : ∀ cs : List Char, ∀ c ∈ (trimStart cs).head?, isBlank c = false := by
    intro cs c hc
    obtain ⟨r, hr⟩ := List.head?_eq_some_iff.1 hc
    exact trimStart_head hr
  obtain ⟨l, r, -, h⟩ := Link.read?_operator_iff.1 h
  rcases h with ⟨label, after, -, -, rfl, -⟩ | ⟨rfl, -, -⟩
  · exact hstart after
  · exact hstart r

/-- Between an operator and what it leads to are blanks, and maybe a label between bars. -/
theorem operator?_congr_gap {gap : List Char}
    (h : operator? (text ++ rest) = some (link, gap ++ rest)) (hh : more.head? = rest.head?) :
    operator? (text ++ more) = some (link, gap ++ more) := by
  obtain ⟨op, he, -⟩ := operator?_eq_some_iff.1 h
  rw [← List.append_assoc, List.append_cancel_right_eq] at he
  rw [he, List.append_assoc] at h ⊢
  refine operator?_congr h ?_
  cases gap with
  | nil => exact hh
  | cons c gap => rfl

/-- A link is known from its own text and the first character of what it leads to. -/
theorem Link.read?_congr (h : Link.read? (text ++ rest) = some (link, rest))
    (hh : more.head? = rest.head?) : Link.read? (text ++ more) = some (link, more) := by
  have hrest := Link.read?_head h
  have hmore : ∀ c ∈ more.head?, isBlank c = false := hh ▸ hrest
  obtain ⟨l, r, ho, h⟩ := Link.read?_operator_iff.1 h
  rw [trimStart_append_of_head hrest] at ho
  rw [Link.read?_operator_iff, trimStart_append_of_head hmore]
  obtain ⟨blanks, hb, hr⟩ := exists_leading_blanks r
  rcases h with ⟨label, after, heq, hn, he, hlink⟩ | ⟨he, hne, rfl⟩
  · obtain ⟨inner, hi, ha⟩ := exists_leading_blanks after
    have hgap : blanks ++ '|' :: (label ++ '|' :: inner) ++ rest = r := by
      rw [← hr, heq, he]
      simp [ha]
    rw [← hgap] at ho
    refine ⟨l, _, operator?_congr_gap ho hh, .inl ⟨label, inner ++ more, ?_, hn, ?_, hlink⟩⟩
    · rw [List.append_assoc, trimStart_append_of_blank hb, trimStart_eq_self]
      · simp
      · rintro c ⟨⟩
        decide
    · rw [trimStart_append_of_blank hi, trimStart_eq_self hmore]
  · rw [← hr, ← he] at ho
    refine ⟨link, _, operator?_congr_gap ho hh, .inr ⟨?_, hh ▸ hne, rfl⟩⟩
    rw [trimStart_append_of_blank hb, trimStart_eq_self hmore]

theorem operator?_starts (h : operator? cs = some (link, rest)) :
    ∃ c ∈ cs.head?, c = '-' ∨ c = '=' := by
  unfold operator? at h
  split at h
  · next hd =>
    unfold dotted? at hd
    split at hd
    · exact ⟨'-', rfl, .inl rfl⟩
    · cases hd
  · split at h
    · exact ⟨'-', rfl, .inl rfl⟩
    · exact ⟨'=', rfl, .inr rfl⟩
    · cases h

/-- A link starts with a stroke or with blanks before one. -/
theorem Link.read?_starts (h : Link.read? cs = some (link, rest)) :
    (∀ c ∈ cs.head?, isBlank c = true ∨ c = '-' ∨ c = '=') ∧ ∃ c ∈ cs, c = '-' ∨ c = '=' := by
  obtain ⟨l, r, ho, -⟩ := Link.read?_operator_iff.1 h
  obtain ⟨c, hc, hstroke⟩ := operator?_starts ho
  obtain ⟨blanks, hb, hcs⟩ := exists_leading_blanks cs
  obtain ⟨after, ha⟩ := List.head?_eq_some_iff.1 hc
  rw [ha] at hcs
  subst hcs
  refine ⟨fun d hd => ?_, c, by simp, hstroke⟩
  cases blanks with
  | nil =>
    cases hd
    exact .inr hstroke
  | cons blank blanks =>
    cases hd
    exact .inl (hb _ List.mem_cons_self)

theorem Link.read?_not_word (h : Link.read? cs = some (link, rest)) :
    ∀ c ∈ cs.head?, isWordChar c = false := by
  intro c hc
  rcases (Link.read?_starts h).1 c hc with hb | rfl | rfl
  · exact not_wordChar_of_blank hb
  · decide +kernel
  · decide +kernel

end Chartboard.Flow
