import Chartboard.Proofs.Checked.Flow
import Chartboard.Proofs.Flow.Labels

namespace Chartboard.Flow

variable {fill : Char} {stroke : Stroke} {cap : Cap} {tip : List Char} {next : Option Char}

inductive Ruled : Stroke → List Char → Prop
  | filled {stroke : Stroke} {fill : Char} (hf : Fills stroke fill) (n : Nat) (hn : 2 ≤ n) :
    Ruled stroke (List.replicate n fill)
  | dotted (n : Nat) : Ruled .dotted (['-', '.'] ++ List.replicate n '.' ++ ['-'])

/-- What stands behind strokes for a cap. -/
inductive Marks : Cap → List Char → Prop
  | none : Marks .none []
  | arrow : Marks .arrow ['>']
  | letter {cap : Cap} {l : Char} (h : Ends l cap) : Marks cap [l]

theorem Tip.ruled (h : Tip fill stroke cap tip next) :
    ∃ strokes mark, tip = strokes ++ mark ∧ Ruled stroke strokes ∧ Marks cap mark := by
  cases h with
  | dotted h =>
    cases h with
    | arrow n => exact ⟨_, ['>'], by simp, .dotted n, .arrow⟩
    | plain n => exact ⟨_, [], (List.append_nil _).symm, .dotted n, .none⟩
  | stroked hf h =>
    cases h with
    | arrow n _ hn => exact ⟨_, ['>'], rfl, .filled hf n hn, .arrow⟩
    | plain n _ hn => exact ⟨_, [], (List.append_nil _).symm, .filled hf n (by omega), .none⟩
    | letter cap l c _ hl _ => exact ⟨[fill, fill], [l], rfl, .filled hf 2 le_rfl, .letter hl⟩

/-- Captions stand behind strokes of the style in which their operator ends. -/
theorem Tip.exists_first {captions : List (List Char)} (h : Tip fill stroke cap tip next)
    (hc : ∀ caption ∈ captions, Fills stroke fill ∧ IsCaption fill caption) :
    ∃ first more, captioned fill captions ++ tip = first ++ more ∧ Ruled stroke first := by
  cases captions with
  | nil =>
    obtain ⟨strokes, mark, rfl, hstrokes, -⟩ := h.ruled
    exact ⟨strokes, mark, rfl, hstrokes⟩
  | cons caption captions =>
    refine ⟨[fill, fill], caption ++ captioned fill captions ++ tip, by simp [captioned], ?_⟩
    exact .filled (hc caption List.mem_cons_self).1 2 le_rfl

end Chartboard.Flow

namespace Chartboard.Checked
open Chartboard.Text Chartboard.Flow

variable {text rest after : List Char} {cur next : Cursor} {stroke : Stroke} {link : Link}
  {label : Option String}

/-- Every character that is read takes a byte at least. -/
theorem byteSize_add_le {count : Nat} (h : rest <:+ text)
    (hcount : rest.length + count ≤ text.length) : byteSize rest + count ≤ byteSize text := by
  obtain ⟨part, rfl⟩ := h
  have hpart := length_le_byteSize part
  rw [List.length_append] at hcount
  rw [byteSize_append]
  omega

namespace Cursor

def OnBoundary (cur : Cursor) : Prop :=
  String.Pos.Raw.IsValid (String.ofList cur.text) ⟨cur.place⟩

theorem onBoundary_leaving (h : rest <:+ text) : (leaving text rest).OnBoundary := by
  obtain ⟨before, rfl⟩ := h
  exact isValid_iff.2 ⟨before, rest, rfl, by simp [leaving]⟩

/-- Between two characters a cursor is known by what is still to be read. -/
theorem OnBoundary.exists_leaving (h : cur.OnBoundary) :
    ∃ rest, rest <:+ cur.text ∧ cur = leaving cur.text rest := by
  obtain ⟨before, rest, htext, hplace⟩ := isValid_iff.1 h
  refine ⟨rest, ⟨before, htext.symm⟩, ?_⟩
  obtain ⟨text, place⟩ := cur
  subst htext hplace
  simp [leaving]

theorem place_leaving (h : rest <:+ text) :
    (leaving text rest).place + byteSize rest = byteSize text :=
  Nat.sub_add_cancel (byteSize_le_of_sublist h.sublist)

/-- From one cursor to another on the same line, over so many bytes or more. -/
structure Advances (count : Nat) (cur next : Cursor) : Prop where
  text : next.text = cur.text
  boundary : next.OnBoundary
  inside : next.place ≤ byteSize cur.text
  count : cur.place + count ≤ next.place

theorem advances_leaving {count : Nat} (h : rest <:+ text) (ha : after <:+ rest)
    (hcount : after.length + count ≤ rest.length) :
    Advances count (leaving text rest) (leaving text after) := by
  refine ⟨rfl, onBoundary_leaving (ha.trans h), Nat.sub_le _ _, ?_⟩
  have hrest := place_leaving h
  have hafter := place_leaving (ha.trans h)
  have hbytes := byteSize_add_le ha hcount
  omega

end Cursor

structure GoesOn (cur : Cursor) (stroke : Stroke) (next : Cursor) : Prop where
  advance : cur.Advances 3 next
  keeps : ∀ {link after}, operator next = some (some (link, after)) → link.stroke = stroke

/-- What an operator has taken from its line. The strokes that come first and last are those of the
style. The cap is marked behind the last ones, from which a scan closes with it. -/
structure Consumes (cur : Cursor) (link : Link) (next : Cursor) : Prop where
  advance : cur.Advances 3 next
  strokes : ∃ taken first more before last mark,
    slice? cur.text cur.place next.place = some taken ∧
    taken = first ++ more ∧ Ruled link.stroke first ∧
    taken = before ++ (last ++ mark) ∧ Ruled link.stroke last ∧ Marks link.cap mark ∧
    scan (cur.advance (byteSize before)) = some (.closed ⟨link.stroke, link.cap, none⟩ next)

/-- How an operator is read from a place on a line. -/
structure Scans (cur : Cursor) : Prop where
  ends : ∃ result, operator cur = some result
  labelled : ∀ {stroke label next}, scan cur = some (.labelled stroke label next) →
    GoesOn cur stroke next
  consumes : ∀ {link next}, operator cur = some (some (link, next)) → Consumes cur link next

theorem exists_captioned (h : scannedAt text rest = .labelled stroke label next) :
    ∃ fill after, Fills stroke fill ∧ captioned? fill rest = some (label, after) ∧
      next = .leaving text after := by
  have hscanned : ∀ {s : Stroke} {fill : Char}, Fills s fill →
      scanned text s fill rest = .labelled stroke label next →
      ∃ fill after, Fills stroke fill ∧ captioned? fill rest = some (label, after) ∧
        next = .leaving text after := by
    intro s fill hf hs
    unfold scanned at hs
    split at hs
    · cases hs
    · split at hs
      · next hc =>
        cases hs
        exact ⟨fill, _, hf, hc, rfl⟩
      · cases hs
  unfold scannedAt at h
  split at h
  · cases h
  · unfold strokesAt at h
    split at h
    · exact hscanned .solid h
    · exact hscanned .thick h
    · cases h

theorem scannedAt_tip {fill : Char} {cap : Cap} {tip : List Char}
    (h : Tip fill stroke cap tip rest.head?) (text : List Char) :
    scannedAt text (tip ++ rest) = .closed ⟨stroke, cap, none⟩ (.leaving text rest) := by
  cases h with
  | dotted h =>
    have hd := dotted?_eq_some_iff.2 ⟨tip, rfl, h⟩
    simp only [scannedAt, hd]
  | stroked hf h =>
    have hc := (closed?_eq_some_iff hf).2 ⟨tip, rfl, h⟩
    obtain ⟨more, rfl⟩ := h.starts
    have hs := scannedAt_strokes hf text (more ++ rest)
    simp only [List.cons_append, List.nil_append] at hc ⊢
    rw [hs, scanned, hc]

/-- A label starts with a blank, so there are three characters in front of the next operator. -/
theorem scan_labelled (h : rest <:+ text)
    (hs : scan (.leaving text rest) = some (.labelled stroke label next)) :
    GoesOn (.leaving text rest) stroke next := by
  rw [scan_leaving h, Option.some.injEq] at hs
  obtain ⟨fill, after, hf, hc, rfl⟩ := exists_captioned hs
  have hafter := captioned?_suffix hc
  obtain ⟨caption, more, hrest, rfl, hcaption, -⟩ := (captioned?_eq_some_iff hf).1 hc
  have hlength : ([fill, fill] ++ more).length + 3 ≤ rest.length := by
    obtain ⟨blank, hblank, -⟩ := hcaption.blank
    obtain ⟨r, rfl⟩ := List.head?_eq_some_iff.1 hblank
    rw [hrest]
    simp
  refine ⟨Cursor.advances_leaving h hafter hlength, ?_⟩
  intro link behind hread
  rw [operator_leaving_strokes hf (hafter.trans h) (scannedAt_strokes hf text more),
    Option.some.injEq] at hread
  obtain ⟨⟨inner, _⟩, hinner, he⟩ := Option.map_eq_some_iff.1 hread
  cases he
  exact stroke_of_stroked? hinner

theorem operator_consumes (h : rest <:+ text)
    (ho : operator (.leaving text rest) = some (some (link, next))) :
    Consumes (.leaving text rest) link next := by
  rw [operator_leaving h, Option.some.injEq] at ho
  obtain ⟨⟨l, after⟩, hread, he⟩ := Option.map_eq_some_iff.1 ho
  cases he
  obtain ⟨hsuffix, hlength⟩ := operator?_suffix hread
  refine ⟨Cursor.advances_leaving h hsuffix hlength, ?_⟩
  obtain ⟨fill, captions, tip, hrest, hcaptions, htip, -⟩ := operator?_iff.1 hread
  obtain ⟨first, more, hfirst, hruled⟩ := htip.exists_first hcaptions
  obtain ⟨last, mark, htail, hlast, hmark⟩ := htip.ruled
  have hclosed : scan (.leaving text (tip ++ after)) =
      some (.closed ⟨link.stroke, link.cap, none⟩ (.leaving text after)) := by
    have hend : tip ++ after <:+ text := by
      refine List.IsSuffix.trans ?_ h
      rw [hrest, List.append_assoc]
      exact List.suffix_append _ _
    rw [scan_leaving hend, scannedAt_tip htip]
  refine ⟨captioned fill captions ++ tip, first, more, captioned fill captions, last, mark, ?_,
    hfirst, hruled, by rw [htail], hlast, hmark, ?_⟩
  · obtain ⟨before, rfl⟩ := h
    subst hrest
    refine slice?_eq_some_iff.2 ⟨before, after, rfl, ?_, ?_⟩
    · simp [Cursor.leaving]
    · simp [Cursor.leaving]
      omega
  · subst hrest
    rw [List.append_assoc] at h ⊢
    rw [Cursor.advance_leaving h]
    exact hclosed

theorem scans_leaving (h : rest <:+ text) : Scans (.leaving text rest) :=
  ⟨⟨_, operator_leaving h⟩, scan_labelled h, operator_consumes h⟩

/-- What one turn of the loop over a line comes to. -/
inductive Turn where
  | ended
  | failed
  | onward (link : Link) (mention : Mention) (cur : Cursor)

def turn (cur : Cursor) : Option Turn := do
  let cur ← cur.skipBlanks
  if cur.atEnd then
    return .ended
  else
    match ← Checked.link cur with
    | none => return .failed
    | some (link, cur) =>
      match ← mention cur with
      | none => return .failed
      | some (mention, cur) => return .onward link mention cur

/-- The loop over a line takes one turn after another, until one ends or fails. -/
theorem chain_eq_turn (cur : Cursor) (mentions : List Mention) (links : List Link) :
    chain cur mentions links = (turn cur).bind fun
      | .ended => some (some (mentions, links))
      | .failed => some none
      | .onward link mention next => chain next (mentions ++ [mention]) (links ++ [link]) := by
  rw [chain, turn]
  simp only [Option.bind_eq_bind, Option.pure_def, Option.bind_assoc]
  refine congrArg _ (funext fun cur => ?_)
  split
  · rfl
  · rw [Option.bind_assoc]
    refine congrArg _ (funext fun found => ?_)
    cases found with
    | none => rfl
    | some found =>
      simp only [Option.bind_assoc]
      refine congrArg _ (funext fun found => ?_)
      cases found <;> rfl

/-- The turns that the loop takes, with the one that ends or fails. -/
def turns (cur : Cursor) : Option Nat := do
  match ← turn cur with
  | .ended | .failed => return 1
  | .onward _ _ next =>
    -- A call written as a term would leave its place in the file in the fixpoint.
    let more ← (by apply turns; exact next : Option Nat)
    return more + 1
partial_fixpoint

/-- On a line that starts with no mention there is no turn. -/
def statementTurns (line : List Char) : Option Nat := do
  match ← mention ⟨line, 0⟩ with
  | none => return 0
  | some (_, cur) => turns cur

/-- A turn that goes on takes an operator of three characters at least, and an id. -/
theorem turn_leaving (h : rest <:+ text) : ∃ t, turn (.leaving text rest) = some t ∧
    ∀ {link m next}, t = .onward link m next → ∃ after, after <:+ rest ∧
      after.length + 4 ≤ rest.length ∧ next = .leaving text after := by
  have hstart := trimStart_suffix rest
  rw [turn, Cursor.skipBlanks_leaving h]
  simp only [Option.bind_eq_bind, Option.bind_some, Cursor.atEnd_leaving (hstart.trans h),
    link_leaving (hstart.trans h), Option.pure_def]
  split
  · exact ⟨_, rfl, by rintro _ _ _ ⟨⟩⟩
  cases hl : Link.read? (trimStart rest) with
  | none => exact ⟨_, rfl, by rintro _ _ _ ⟨⟩⟩
  | some found =>
    obtain ⟨link, place⟩ := found
    obtain ⟨hplace, hlink⟩ := Link.read?_suffix hl
    simp only [Option.map_some, Option.bind_some,
      mention_leaving (hplace.trans (hstart.trans h))]
    cases hm : Mention.read? place with
    | none => exact ⟨_, rfl, by rintro _ _ _ ⟨⟩⟩
    | some found =>
      obtain ⟨m, after⟩ := found
      obtain ⟨hafter, hid⟩ := Mention.read?_suffix hm
      refine ⟨_, rfl, ?_⟩
      rintro _ _ _ ⟨⟩
      have hle := hstart.length_le
      exact ⟨after, hafter.trans (hplace.trans hstart), by omega, rfl⟩

/-- The loop comes to an end, and takes a turn for every link that it reads and one more. -/
theorem turns_leaving (h : rest <:+ text) (mentions : List Mention) (links : List Link) :
    ∃ count result, turns (.leaving text rest) = some count ∧ 4 * count ≤ byteSize rest + 4 ∧
      chain (.leaving text rest) mentions links = some result ∧
      ∀ found ∈ result, found.2.length + 1 = links.length + count := by
  -- A turn that goes on leaves less of the line, and the mentions and links are any that were read.
  induction hn : rest.length using Nat.strong_induction_on generalizing rest mentions links with
  | _ n ih =>
    obtain ⟨t, ht, honward⟩ := turn_leaving h
    rw [turns, chain_eq_turn, ht]
    cases t with
    | ended => exact ⟨1, _, rfl, by omega, rfl, by rintro _ ⟨⟩; rfl⟩
    | failed => exact ⟨1, _, rfl, by omega, rfl, by rintro _ ⟨⟩⟩
    | onward link m next =>
      obtain ⟨after, hafter, hlength, rfl⟩ := honward rfl
      obtain ⟨count, result, hturns, hcount, hchain, hresult⟩ := ih after.length (by omega)
        (hafter.trans h) (mentions ++ [m]) (links ++ [link]) rfl
      have hbytes := byteSize_add_le hafter hlength
      refine ⟨count + 1, result, by simp [hturns], by omega, hchain, fun found hf => ?_⟩
      have hfound := hresult found hf
      rw [List.length_append, List.length_singleton] at hfound
      omega

/-- Operators make progress from every place between two characters of a line, and keep their style.
So the loop over the line takes at most one turn more than a quarter of its bytes. -/
theorem operators_make_progress (h : cur.OnBoundary) : Scans cur ∧
    ∃ count, statementTurns cur.text = some count ∧ count ≤ byteSize cur.text / 4 + 1 ∧
      ∀ mentions links, statement cur.text = some (some (mentions, links)) →
        count = links.length + 1 := by
  constructor
  · obtain ⟨rest, hrest, he⟩ := h.exists_leaving
    rw [he]
    exact scans_leaving hrest
  · have hmention := mention_leaving (List.suffix_refl cur.text)
    rw [Cursor.leaving_self] at hmention
    rw [statementTurns, statement, hmention]
    cases hm : Mention.read? cur.text with
    | none => exact ⟨0, rfl, Nat.zero_le _, by rintro _ _ ⟨⟩⟩
    | some found =>
      obtain ⟨first, after⟩ := found
      obtain ⟨hafter, hid⟩ := Mention.read?_suffix hm
      obtain ⟨count, result, hturns, hcount, hchain, hresult⟩ := turns_leaving hafter [first] []
      have hbytes : byteSize after + 1 ≤ byteSize cur.text := byteSize_add_le hafter hid
      refine ⟨count, hturns, by omega, fun mentions links hs => ?_⟩
      have he : chain (.leaving cur.text after) [first] [] = some (some (mentions, links)) := hs
      rw [hchain, Option.some.injEq] at he
      have hfound := hresult (mentions, links) he
      simp only [List.length_nil, Nat.zero_add] at hfound
      exact hfound.symm

def accented : List Char :=
  "é -- ü --x b".toList

/-- A label between dashes, read from the third byte of a line that has fourteen. -/
theorem accented_progress : Cursor.OnBoundary ⟨accented, 3⟩ ∧
    operator ⟨accented, 3⟩ = some (some (⟨.solid, .cross, some "ü"⟩, ⟨accented, 12⟩)) ∧
    Consumes ⟨accented, 3⟩ ⟨.solid, .cross, some "ü"⟩ ⟨accented, 12⟩ ∧
    statementTurns accented = some 2 := by
  have hrest : "-- ü --x b".toList <:+ accented := ⟨"é ".toList, by decide⟩
  have hplace : (⟨accented, 3⟩ : Cursor) = .leaving accented "-- ü --x b".toList := by
    rw [Cursor.leaving, Cursor.mk.injEq]
    decide
  have hb : Cursor.OnBoundary ⟨accented, 3⟩ := hplace ▸ Cursor.onBoundary_leaving hrest
  have ho : operator ⟨accented, 3⟩ =
      some (some (⟨.solid, .cross, some "ü"⟩, ⟨accented, 12⟩)) := by
    have hread : operator? "-- ü --x b".toList =
        some (⟨.solid, .cross, some "ü"⟩, " b".toList) := by decide +kernel
    have hnext : Cursor.leaving accented " b".toList = ⟨accented, 12⟩ := by
      rw [Cursor.leaving, Cursor.mk.injEq]
      decide
    rw [hplace, operator_leaving hrest, hread]
    exact congrArg (fun cur => some (some (_, cur))) hnext
  have hs : statement accented = some (some ([⟨"é", none⟩, ⟨"b", none⟩],
      [⟨.solid, .cross, some "ü"⟩])) := by
    rw [statement_eq]
    decide +kernel
  obtain ⟨hscans, count, hturns, -, hcount⟩ := operators_make_progress hb
  refine ⟨hb, ho, hscans.consumes ho, ?_⟩
  rw [hturns, hcount _ _ hs]
  rfl

end Chartboard.Checked
