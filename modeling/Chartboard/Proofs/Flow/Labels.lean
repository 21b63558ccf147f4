import Chartboard.Proofs.Flow.Chains

namespace Chartboard.Flow
open Text

variable {cs place rest : List Char} {fill : Char} {stroke : Stroke} {link : Link}
  {next : Option Char} {hops : List (Link × Mention)} {s : Statement} {i : Nat}

/-- Captions in their order, each behind a pair of strokes. -/
def captioned (fill : Char) (captions : List (List Char)) : List Char :=
  captions.flatMap ([fill, fill] ++ ·)

theorem strokes_iff {text : List Char} : Strokes stroke fill link text next ↔
    ∃ captions tip, text = captioned fill captions ++ tip ∧
      (∀ caption ∈ captions, IsCaption fill caption) ∧ Closes fill link.cap tip next ∧
      link.stroke = stroke ∧ link.label = captions.head?.bind label? := by
  constructor
  · intro h
    induction h with
    | bare h => exact ⟨[], _, rfl, by simp, h, rfl, rfl⟩
    | @captioned link caption text next hc h ih =>
      obtain ⟨captions, tip, rfl, hcaptions, htip, hstroke, -⟩ := ih
      exact ⟨caption :: captions, tip, by simp [captioned], List.forall_mem_cons.2 ⟨hc, hcaptions⟩,
        htip, hstroke, rfl⟩
  · rintro ⟨captions, tip, rfl, hcaptions, htip, rfl, hlabel⟩
    obtain ⟨stroke, cap, label⟩ := link
    replace htip : Closes fill cap tip next := htip
    cases hlabel
    induction captions with
    | nil => exact .bare htip
    | cons caption captions ih =>
      rw [List.forall_mem_cons] at hcaptions
      simpa [captioned] using Strokes.captioned hcaptions.1 (ih hcaptions.2)

/-- The strokes that an operator ends in. Dots stand without captions. -/
inductive Tip (fill : Char) : Stroke → Cap → List Char → Option Char → Prop
  | dotted {cap : Cap} {tip : List Char} {next : Option Char} (h : Dots cap tip next) :
    Tip fill .dotted cap tip next
  | stroked {stroke : Stroke} {cap : Cap} {tip : List Char} {next : Option Char}
    (hf : Fills stroke fill) (h : Closes fill cap tip next) : Tip fill stroke cap tip next

theorem operator?_iff : operator? cs = some (link, rest) ↔ ∃ fill captions tip,
    cs = captioned fill captions ++ tip ++ rest ∧
      (∀ caption ∈ captions, Fills link.stroke fill ∧ IsCaption fill caption) ∧
      Tip fill link.stroke link.cap tip rest.head? ∧ link.label = captions.head?.bind label? := by
  rw [operator?_eq_some_iff]
  constructor
  · rintro ⟨text, rfl, h⟩
    cases h with
    | dotted h => exact ⟨'-', [], text, rfl, by simp, .dotted h, rfl⟩
    | @stroked stroke fill _ _ _ hf h =>
      obtain ⟨captions, tip, rfl, hcaptions, htip, rfl, hlabel⟩ := strokes_iff.1 h
      exact ⟨fill, captions, tip, rfl, fun c hc => ⟨hf, hcaptions c hc⟩, .stroked hf htip, hlabel⟩
  · rintro ⟨fill, captions, tip, rfl, hcaptions, htip, hlabel⟩
    refine ⟨_, rfl, ?_⟩
    obtain ⟨stroke, cap, label⟩ := link
    cases htip with
    | dotted h =>
      cases captions with
      | nil =>
        cases hlabel
        exact .dotted h
      | cons caption captions => exact nomatch (hcaptions caption List.mem_cons_self).1
    | stroked hf h =>
      exact .stroked hf
        (strokes_iff.2 ⟨captions, tip, rfl, fun c hc => (hcaptions c hc).2, h, rfl, hlabel⟩)

/-- The text between two mentions, part by part. -/
structure Wording where
  lead : List Char
  fill : Char
  captions : List (List Char)
  tip : List Char
  gap : List Char
  barred : Option (List Char)
  trail : List Char

namespace Wording

/-- What follows the operator. -/
def behind (w : Wording) : List Char :=
  w.gap ++ (w.barred.elim [] fun label => '|' :: label ++ ['|']) ++ w.trail

def text (w : Wording) : List Char :=
  w.lead ++ captioned w.fill w.captions ++ w.tip ++ w.behind

/-- The label that the link has. -/
def kept (w : Wording) : Option (List Char) :=
  w.barred.or w.captions.head?

/-- The labels that no link has. -/
def dropped (w : Wording) : List (List Char) :=
  if w.barred.isSome then w.captions else w.captions.tail

/-- A text that is read as a link to a place behind it. -/
structure Draws (w : Wording) (link : Link) (place : List Char) : Prop where
  lead : ∀ c ∈ w.lead, isBlank c = true
  captions : ∀ caption ∈ w.captions, Fills link.stroke w.fill ∧ IsCaption w.fill caption
  tip : Tip w.fill link.stroke link.cap w.tip (w.behind ++ place).head?
  gap : ∀ c ∈ w.gap, isBlank c = true
  barred : ∀ label ∈ w.barred, '|' ∉ label
  trail : ∀ c ∈ w.trail, isBlank c = true
  unblank : ∀ c ∈ place.head?, isBlank c = false
  unbarred : w.barred = none → place.head? ≠ some '|'
  label : link.label = w.kept.bind label?

variable {w : Wording}

theorem Draws.operator (h : w.Draws link place) :
    operator? (trimStart (w.text ++ place)) =
      some ({ link with label := w.captions.head?.bind label? }, w.behind ++ place) := by
  have ho : operator? (captioned w.fill w.captions ++ w.tip ++ (w.behind ++ place)) =
      some ({ link with label := w.captions.head?.bind label? }, w.behind ++ place) :=
    operator?_iff.2 ⟨w.fill, w.captions, w.tip, rfl, h.captions, h.tip, rfl⟩
  have he : w.text ++ place =
      w.lead ++ (captioned w.fill w.captions ++ w.tip ++ (w.behind ++ place)) := by
    simp [text]
  rw [he, trimStart_append_of_blank h.lead, trimStart_eq_self, ho]
  intro c hc
  obtain ⟨d, hd, hstroke⟩ := operator?_starts ho
  obtain rfl := Option.some.inj (hc.symm.trans hd)
  rcases hstroke with rfl | rfl
  · decide
  · decide

theorem Draws.read (h : w.Draws link place) :
    Link.read? (w.text ++ place) = some (link, place) := by
  refine Link.read?_operator_iff.2 ⟨_, _, h.operator, ?_⟩
  obtain ⟨lead, fill, captions, tip, gap, barred, trail⟩ := w
  obtain ⟨stroke, cap, label⟩ := link
  cases h.label
  cases barred with
  | none =>
    refine .inr ⟨?_, h.unbarred rfl, rfl⟩
    simp [behind, trimStart_append_of_blank h.gap, trimStart_append_of_blank h.trail,
      trimStart_eq_self h.unblank]
  | some label =>
    refine .inl ⟨label, trail ++ place, ?_, h.barred label rfl, ?_, rfl⟩
    · have hbar : ∀ cs, trimStart ('|' :: cs) = '|' :: cs := fun cs => rfl
      simp [behind, trimStart_append_of_blank h.gap, hbar]
    · rw [trimStart_append_of_blank h.trail, trimStart_eq_self h.unblank]

end Wording

/-- A text is read as a link exactly if it is worded as one. -/
theorem Link.read?_eq_some_iff : Link.read? cs = some (link, place) ↔
    ∃ w : Wording, cs = w.text ++ place ∧ w.Draws link place := by
  constructor
  · intro h
    have hplace := Link.read?_head h
    obtain ⟨l, r, ho, h⟩ := Link.read?_operator_iff.1 h
    obtain ⟨fill, captions, tip, he, hcaptions, htip, hlabel⟩ := operator?_iff.1 ho
    obtain ⟨lead, hlead, hcs⟩ := exists_leading_blanks cs
    obtain ⟨gap, hgap, hr⟩ := exists_leading_blanks r
    rcases h with ⟨label, after, heq, hn, rfl, rfl⟩ | ⟨rfl, hne, rfl⟩
    · obtain ⟨trail, htrail, ha⟩ := exists_leading_blanks after
      let w : Wording := ⟨lead, fill, captions, tip, gap, some label, trail⟩
      have hbehind : w.behind ++ trimStart after = r := by
        rw [← hr, heq]
        simp [w, Wording.behind, ha]
      refine ⟨w, ?_, hlead, hcaptions, hbehind ▸ htip, hgap, ?_, htrail, hplace, nofun, rfl⟩
      · rw [← hcs, he, ← hbehind]
        simp [Wording.text, w]
      · rintro _ ⟨⟩
        exact hn
    · let w : Wording := ⟨lead, fill, captions, tip, gap, none, []⟩
      have hbehind : w.behind ++ trimStart r = r := by
        simp [w, Wording.behind, hr]
      have htip : Tip w.fill link.stroke link.cap w.tip (w.behind ++ trimStart r).head? := by
        rwa [hbehind]
      refine ⟨w, ?_, hlead, hcaptions, htip, hgap, nofun, nofun, hplace, fun _ => hne, hlabel⟩
      rw [Wording.text, List.append_assoc, hbehind, ← hcs, he]
      simp [w]
  · rintro ⟨w, rfl, h⟩
    exact h.read

/-- Behind every mention of a chain stands the link that leads to the next one. -/
theorem hops?_places (h : hops? cs = some hops) : (placesBehind cs).length = hops.length ∧
    ∀ {i : Nat} {p : List Char × List Char}, (placesBehind cs)[i]? = some p →
      ∃ behind link m, (cs :: (placesBehind cs).map (·.2))[i]? = some behind ∧
        hops[i]? = some (link, m) ∧ Link.read? behind = some (link, p.1) ∧
        Mention.read? p.1 = some (m, p.2) := by
  fun_induction hops? cs generalizing hops with
  | case1 cs he =>
    cases h
    simp [placesBehind_of_blank (List.isEmpty_iff.1 he)]
  | case2 => cases h
  | case3 => cases h
  | case4 cs he link place hl m rest hm _ _ ih =>
    obtain ⟨later, hr, rfl⟩ := Option.map_eq_some_iff.1 h
    obtain ⟨hlength, hlater⟩ := ih hr
    rw [placesBehind_of_read hl hm]
    refine ⟨by simp [hlength], fun {i p} hp => ?_⟩
    cases i with
    | zero =>
      cases hp
      exact ⟨cs, link, m, rfl, rfl, hl, hm⟩
    | succ i => exact hlater hp

/-- What stands around labels: blanks, and the characters of operators and bars. -/
def isFiller (c : Char) : Bool :=
  isBlank c || "-=.>ox|".toList.contains c

/-- A text with at most one label in it, which is the one given. -/
def HasOneLabel (text : List Char) (label : Option String) : Prop :=
  ∃ before inner after, text = before ++ inner ++ after ∧
    (before ++ after).all isFiller = true ∧ label = label? inner

theorem hasOneLabel_iff {text : List Char} {label : Option String} : HasOneLabel text label ↔
    ∃ i ∈ List.range (text.length + 1), ∃ j ∈ List.range (text.length + 1),
      (text.take i ++ (text.drop i).drop j).all isFiller = true ∧
        label = label? ((text.drop i).take j) := by
  constructor
  · rintro ⟨before, inner, after, rfl, hfiller, hlabel⟩
    have hlength : (before ++ inner ++ after).length =
        before.length + inner.length + after.length := by
      rw [List.length_append, List.length_append]
    refine ⟨before.length, List.mem_range.2 (by omega), inner.length, List.mem_range.2 (by omega),
      ?_⟩
    simpa using ⟨by simpa using hfiller, hlabel⟩
  · rintro ⟨i, -, j, -, hfiller, hlabel⟩
    refine ⟨text.take i, (text.drop i).take j, (text.drop i).drop j, ?_, hfiller, hlabel⟩
    rw [List.append_assoc, List.take_append_drop, List.take_append_drop]

instance (text : List Char) (label : Option String) : Decidable (HasOneLabel text label) :=
  decidable_of_iff _ hasOneLabel_iff.symm

theorem Fills.filler (h : Fills stroke fill) : isFiller fill = true := by
  cases h with
  | solid => decide
  | thick => decide

theorem Tip.filler {cap : Cap} {tip : List Char} (h : Tip fill stroke cap tip next) :
    tip.all isFiller = true := by
  have hends : isFiller '-' = true ∧ isFiller '.' = true ∧ isFiller '>' = true ∧
      isFiller 'o' = true ∧ isFiller 'x' = true := by decide
  cases h with
  | dotted h => cases h <;> simp [hends]
  | stroked hf h =>
    cases h with
    | arrow => simp [hends, hf.filler]
    | plain => simp [hf.filler]
    | letter cap l c hd hl hc => cases hl <;> simp [hends, hf.filler]

theorem filler_of_blank (h : ∀ c ∈ cs, isBlank c = true) : cs.all isFiller = true := by
  refine List.all_eq_true.2 fun c hc => ?_
  rw [isFiller, h c hc, Bool.true_or]

theorem captioned_filler {captions : List (List Char)}
    (h : ∀ caption ∈ captions, Fills stroke fill ∧ ∀ c ∈ caption, isBlank c = true) :
    (captioned fill captions).all isFiller = true := by
  rw [captioned, List.all_flatMap, List.all_eq_true]
  intro caption hc
  obtain ⟨hf, hb⟩ := h caption hc
  rw [List.all_append, filler_of_blank hb]
  simp [hf.filler]

/-- A link with no words to drop has what is written with it. -/
theorem Wording.Draws.hasOneLabel {w : Wording} (h : w.Draws link place)
    (hd : ∀ label ∈ w.dropped, ∀ c ∈ label, isBlank c = true) : HasOneLabel w.text link.label := by
  have hlead := filler_of_blank h.lead
  have hgap := filler_of_blank h.gap
  have htrail := filler_of_blank h.trail
  have htip := h.tip.filler
  have hlabel := h.label
  have hcaptions := h.captions
  obtain ⟨lead, fill, captions, tip, gap, barred, trail⟩ := w
  simp only at hlead hgap htrail htip hcaptions
  cases barred with
  | some label =>
    have hblank := captioned_filler fun c hc => ⟨(hcaptions c hc).1, hd c hc⟩
    have hbar : isFiller '|' = true := by decide
    refine ⟨lead ++ captioned fill captions ++ tip ++ gap ++ ['|'], label, '|' :: trail, ?_, ?_,
      hlabel⟩
    · simp [text, behind]
    · simp [hlead, hblank, htip, hgap, hbar, htrail, -List.all_eq_true]
  | none =>
    cases captions with
    | nil =>
      refine ⟨lead ++ tip ++ gap ++ trail, [], [], ?_, ?_, hlabel⟩
      · simp [text, behind, captioned]
      · simp [hlead, htip, hgap, htrail, -List.all_eq_true]
    | cons caption captions =>
      obtain ⟨⟨hf, -⟩, hcaptions⟩ := List.forall_mem_cons.1 hcaptions
      have hblank := captioned_filler fun c hc => ⟨(hcaptions c hc).1, hd c hc⟩
      refine ⟨lead ++ [fill, fill], caption, captioned fill captions ++ tip ++ gap ++ trail, ?_, ?_,
        hlabel⟩
      · simp [text, behind, captioned]
      · simp [hlead, hf.filler, hblank, htip, hgap, htrail, -List.all_eq_true]

/-- Between every two mentions of a line stands the text of their link, and nothing else. The link
has the label between bars or else the first caption. That is all that is written with it, unless
there are words in another label. -/
theorem links_have_one_label {line : List Char} (h : Line.ofText line = .statement s) :
    (places (said line)).length = s.mentions.length ∧
      ∀ {i : Nat} {p q : List Char × List Char}, (places (said line))[i]? = some p →
        (places (said line))[i + 1]? = some q → ∃ m link n, s.mentions[i]? = some m ∧
          s.hops[i]? = some (link, n) ∧ Mention.read? p.1 = some (m, p.2) ∧
          Mention.read? q.1 = some (n, q.2) ∧ ∃ w : Wording, p.2 = w.text ++ q.1 ∧
            w.Draws link q.1 ∧ ((∀ label ∈ w.dropped, ∀ c ∈ label, isBlank c = true) →
              HasOneLabel w.text link.label) := by
  obtain ⟨-, -, hread⟩ := Line.ofText_eq_statement_iff.1 h
  obtain ⟨rest, hm, hr⟩ := Statement.read?_eq_some_iff.1 hread
  obtain ⟨hlength, hplaces⟩ := hops?_places hr
  have heq : places (said line) = (said line, rest) :: placesBehind rest := by rw [places, hm]
  rw [heq]
  refine ⟨by simp [hlength, Statement.mentions], fun {i p q} hp hq => ?_⟩
  obtain ⟨behind, link, n, hbehind, hhop, hlink, hn⟩ := hplaces hq
  have hb : behind = p.2 := by
    have hp2 := congrArg (Option.map Prod.snd) hp
    rw [← List.getElem?_map] at hp2
    exact Option.some.inj (hbehind.symm.trans hp2)
  obtain ⟨w, hw, hdraws⟩ := Link.read?_eq_some_iff.1 hlink
  obtain ⟨m, hmention, hreadm⟩ : ∃ m, s.mentions[i]? = some m ∧
      Mention.read? p.1 = some (m, p.2) := by
    cases i with
    | zero =>
      cases hp
      exact ⟨s.first, rfl, hm⟩
    | succ i =>
      obtain ⟨_, _, m, -, hhop, -, hm⟩ := hplaces hp
      exact ⟨m, by simp [Statement.mentions, hhop], hm⟩
  exact ⟨m, link, n, hmention, hhop, hreadm, hn, w, hb ▸ hw, hdraws, hdraws.hasOneLabel⟩

/-- A caption in quotes on a line with brackets. -/
theorem link_of_quoted_caption :
    Line.ofText "a[/x] -- \"y\" --> c([z]);".toList =
        .statement ⟨⟨"a", some ⟨"/x", .rectangle⟩⟩,
          [(⟨.solid, .arrow, some "y"⟩, ⟨"c", some ⟨"z", .stadium⟩⟩)]⟩ ∧
      ∃ w : Wording, " -- \"y\" --> c([z])".toList = w.text ++ "c([z])".toList ∧
        w.Draws ⟨.solid, .arrow, some "y"⟩ "c([z])".toList ∧
        ((∀ label ∈ w.dropped, ∀ c ∈ label, isBlank c = true) →
          HasOneLabel w.text (some "y")) := by
  have hs : Line.ofText "a[/x] -- \"y\" --> c([z]);".toList =
      .statement ⟨⟨"a", some ⟨"/x", .rectangle⟩⟩,
        [(⟨.solid, .arrow, some "y"⟩, ⟨"c", some ⟨"z", .stadium⟩⟩)]⟩ := by
    decide +kernel
  have hp : (places (said "a[/x] -- \"y\" --> c([z]);".toList))[0]? =
      some ("a[/x] -- \"y\" --> c([z])".toList, " -- \"y\" --> c([z])".toList) := by
    decide +kernel
  have hq : (places (said "a[/x] -- \"y\" --> c([z]);".toList))[0 + 1]? =
      some ("c([z])".toList, []) := by
    decide +kernel
  obtain ⟨_, link, n, -, hhop, -, -, w, hw, hdraws, hlabel⟩ := (links_have_one_label hs).2 hp hq
  cases hhop
  exact ⟨hs, w, hw, hdraws, hlabel⟩

/-- A caption inside a caption. -/
theorem inner_caption_dropped : ∃ s p q link n,
    Line.ofText "A -- p -- q --> B".toList = .statement s ∧
      (places (said "A -- p -- q --> B".toList))[0]? = some p ∧
      (places (said "A -- p -- q --> B".toList))[0 + 1]? = some q ∧
      s.hops[0]? = some (link, n) ∧
      ¬ ∃ between, p.2 = between ++ q.1 ∧ HasOneLabel between link.label := by
  refine ⟨⟨⟨"A", none⟩, [(⟨.solid, .arrow, some "p"⟩, ⟨"B", none⟩)]⟩,
    ("A -- p -- q --> B".toList, " -- p -- q --> B".toList), ("B".toList, []), _, _,
    by decide +kernel, by decide +kernel, by decide +kernel, rfl, ?_⟩
  rintro ⟨between, he, h⟩
  have hb : " -- p -- q --> ".toList ++ ['B'] = between ++ ['B'] := he
  obtain rfl := List.append_cancel_right hb
  exact absurd h (by decide +kernel)

theorem label?_pad {blanks text trailing : List Char} (hb : ∀ c ∈ blanks, isBlank c = true)
    (ht : ∀ c ∈ trailing, isBlank c = true) :
    label? (blanks ++ text ++ trailing) = label? text := by
  rw [label?, trim_pad hb ht, label?]

/-- A text between blanks is a caption if no two strokes are in it. -/
theorem isCaption_pad {text : List Char} (hf : Fills stroke fill) (h : ¬ [fill, fill] <:+: text) :
    IsCaption fill ([' '] ++ text ++ [' ']) := by
  have hb : ' ' ∉ [fill, fill] := by
    intro hm
    obtain rfl : ' ' = fill := by simpa using hm
    exact absurd hf.ne.2.2 (by decide)
  refine ⟨⟨' ', rfl, by decide⟩, ?_⟩
  calc cut [fill, fill] ([' '] ++ text ++ [' '] ++ [fill, fill])
      = cut [fill, fill] ([] ++ ' ' :: (text ++ ' ' :: ([fill, fill] ++ []))) := by simp
    _ = some ([' '] ++ text ++ [' '], []) := by
      rw [cut_barrier hb (by simp) (by simp), cut_barrier hb (by simp) h, cut_append (by simp)]
      simp

theorem Closes.before_bar {cap : Cap} {tip : List Char} (hf : Fills stroke fill)
    (h : Closes fill cap tip (some ' ')) : Closes fill cap tip (some '|') := by
  cases h with
  | arrow n _ hn => exact .arrow n _ hn
  | plain n _ hn =>
    refine .plain n _ hn ?_ (by decide)
    cases hf with
    | solid => decide
    | thick => decide
  | letter cap l c hd hl hc => exact .letter cap l '|' hd hl (by decide)

def Statement.single (source : List Char) (link : Link) (target : List Char) : Statement :=
  ⟨⟨String.ofList source, none⟩, [(link, ⟨String.ofList target, none⟩)]⟩

/-- A link between two bare ids, with a blank behind the first. Only the word that opens groups
keeps the line from being a chain. -/
theorem Wording.Draws.line {w : Wording} {source target : List Char} (hs : IsWord source)
    (ht : IsWord target) (h : w.Draws link target) (hl : w.lead ≠ []) :
    Statement.read? (source ++ w.text ++ target) = some (.single source link target) ∧
      (Line.ofText (source ++ w.text ++ target) = .statement (.single source link target) ↔
        sameLetters source "subgraph".toList = false) := by
  have hm := Mention.read?_bare ht [] (by simp) (by decide)
  rw [List.append_nil] at hm
  have hhops : hops? (w.text ++ target) = some [(link, ⟨String.ofList target, none⟩)] := by
    rw [hops?_of_link h.read, hm]
    simp [hops?_nil]
  have hread := Statement.read?_bare hs hhops (by simp)
  rw [List.append_assoc]
  refine ⟨hread, ?_⟩
  have hsaid : said (source ++ (w.text ++ target)) = source ++ (w.text ++ target) := by
    rw [← List.append_assoc]
    exact said_eq_self (ht.last _)
  obtain ⟨blank, hblank, hb⟩ : ∃ blank ∈ (w.text ++ target).head?, isBlank blank = true := by
    obtain ⟨c, r, hc⟩ := List.exists_cons_of_ne_nil hl
    refine ⟨c, ?_, h.lead c (hc ▸ List.mem_cons_self)⟩
    simp [text, hc]
  have hno : ∀ c ∈ (w.text ++ target).head?, isWordChar c = false := by
    intro c hc
    obtain rfl := Option.some.inj (hblank.symm.trans hc)
    exact not_wordChar_of_blank hb
  have hkey : afterKeyword? "subgraph".toList (source ++ (w.text ++ target)) = none ↔
      sameLetters source "subgraph".toList = false := by
    rw [afterKeyword?_word _ (by decide +kernel) hs hno, Option.mem_def.1 hblank]
    simp [hb]
  constructor
  · intro hline
    obtain ⟨-, hk, -⟩ := Line.ofText_eq_statement_iff.1 hline
    exact hkey.1 (hsaid ▸ hk)
  · intro hk
    exact Line.ofText_chain hread (List.cons_ne_nil _ _) hsaid (hkey.2 hk)

/-- A label between the strokes of an operator and one between bars behind it make the same chain
of two ids. The operator is one that a blank may follow. -/
theorem label_spellings_agree {source target text op : List Char} {cap : Cap}
    (hs : IsWord source) (ht : IsWord target) (hf : Fills stroke fill)
    (hop : Closes fill cap op (some ' ')) (hbar : '|' ∉ text) (hno : ¬ [fill, fill] <:+: text) :
    ∀ line ∈ [source ++ [' ', fill, fill, ' '] ++ text ++ [' '] ++ op ++ [' '] ++ target,
        source ++ [' '] ++ op ++ ['|'] ++ text ++ ['|', ' '] ++ target],
      Statement.read? line = some (.single source ⟨stroke, cap, label? text⟩ target) ∧
        (Line.ofText line = .statement (.single source ⟨stroke, cap, label? text⟩ target) ↔
          sameLetters source "subgraph".toList = false) := by
  have hunblank : ∀ c ∈ target.head?, isBlank c = false := by
    simpa using ht.head []
  have hunbarred : target.head? ≠ some '|' := by
    intro hc
    exact absurd (ht.chars '|' (List.mem_of_mem_head? hc)) (by decide +kernel)
  have hblank : ∀ c ∈ [' '], isBlank c = true := List.forall_mem_singleton.2 (by decide)
  let inner : Wording := ⟨[' '], fill, [[' '] ++ text ++ [' ']], op, [' '], none, []⟩
  let outer : Wording := ⟨[' '], fill, [], op, [], some text, [' ']⟩
  have hinner : inner.Draws ⟨stroke, cap, label? text⟩ target :=
    { lead := hblank
      captions := List.forall_mem_singleton.2 ⟨hf, isCaption_pad hf hno⟩
      tip := .stroked hf hop
      gap := hblank
      barred := nofun
      trail := nofun
      unblank := hunblank
      unbarred := fun _ => hunbarred
      label := (label?_pad hblank hblank).symm }
  have houter : outer.Draws ⟨stroke, cap, label? text⟩ target :=
    { lead := hblank
      captions := nofun
      tip := .stroked hf (hop.before_bar hf)
      gap := nofun
      barred := by simpa [outer] using hbar
      trail := hblank
      unblank := hunblank
      unbarred := nofun
      label := rfl }
  intro line hline
  obtain rfl | rfl : line = source ++ inner.text ++ target ∨
      line = source ++ outer.text ++ target := by
    simpa [inner, outer, Wording.text, Wording.behind, captioned] using hline
  · exact hinner.line hs ht (by simp [inner])
  · exact houter.line hs ht (by simp [outer])

/-- A label that ends in a stroke, before an operator that ends in a letter. -/
theorem crossed_label_spellings_agree :
    Line.ofText "A -- maybe - --x B".toList =
        .statement (.single "A".toList ⟨.solid, .cross, some "maybe -"⟩ "B".toList) ∧
      Line.ofText "A --x|maybe -| B".toList =
        .statement (.single "A".toList ⟨.solid, .cross, some "maybe -"⟩ "B".toList) := by
  have hs : IsWord "A".toList := isWord_iff.2 (by decide +kernel)
  have ht : IsWord "B".toList := isWord_iff.2 (by decide +kernel)
  have hop : Closes '-' .cross "--x".toList (some ' ') :=
    .letter .cross 'x' ' ' rfl .cross (by decide)
  have hno : ¬ ['-', '-'] <:+: "maybe -".toList := contains_eq_false_iff.1 (by decide +kernel)
  have hlabel : label? "maybe -".toList = some "maybe -" := by decide +kernel
  have h := label_spellings_agree hs ht .solid hop (by decide) hno
  rw [hlabel] at h
  exact ⟨(h _ (by simp)).2.2 (by decide), (h _ (by simp)).2.2 (by decide)⟩

end Chartboard.Flow
