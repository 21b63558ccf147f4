import Chartboard.Proofs.Checked.Cursor
import Chartboard.Proofs.Flow.WellFormed

namespace Chartboard.Flow
open Text

variable {stroke : Stroke} {fill : Char} {n : Nat} {cs tail : List Char}

theorem Fills.ascii (hf : Fills stroke fill) : fill.toNat < 128 := by
  cases hf <;> decide

theorem Fills.solid_iff (hf : Fills stroke fill) : stroke = .solid ↔ fill = '-' := by
  cases hf <;> decide

theorem byteSize_replicate (hf : fill.toNat < 128) (n : Nat) :
    byteSize (List.replicate n fill) = n := by
  have hsize : fill.utf8Size = 1 := Char.utf8Size_eq_one_iff.2 (Nat.le_of_lt_succ hf)
  rw [byteSize_eq_sum, List.map_replicate, List.sum_replicate_nat, hsize, Nat.mul_one]

theorem eq_append_of_run (h : run fill cs = (n, tail)) :
    cs = List.replicate n fill ++ tail := by
  rw [run, Prod.mk.injEq] at h
  obtain ⟨rfl, rfl⟩ := h
  have htaken : cs.takeWhile (· == fill) =
      List.replicate (cs.takeWhile (· == fill)).length fill :=
    List.eq_replicate_iff.2 ⟨rfl, fun c hc => by simpa using List.mem_takeWhile_imp hc⟩
  rw [← htaken, List.takeWhile_append_dropWhile]

theorem closed?_of_run (h : run fill cs = (n, tail)) : closed? fill cs =
    if tail.head? = some '>' then
      if 2 ≤ n then some (.arrow, tail.tail) else none
    else if 3 ≤ n then some (.none, tail)
    else if n = 2 ∧ fill = '-' then letter? tail else none := by
  rw [closed?, h]
  cases tail with
  | nil => simp
  | cons c tail =>
    by_cases hc : c = '>'
    · simp [hc]
    · simp [hc]

theorem captioned?_of_run (h : run fill cs = (n, tail)) : captioned? fill cs =
    if n = 2 ∧ tail.head?.any isBlank then
      (cut [fill, fill] tail).map fun (label, after) => (label? label, fill :: fill :: after)
    else none := by
  rw [captioned?, h]
  by_cases hn : n = 2
  · subst hn
    cases tail with
    | nil => simp
    | cons c tail => simp
  · simp [hn]

/-- Dots count only between dashes. -/
theorem dotted?_of_run (h : run '.' cs = (n, tail)) : dotted? ('-' :: cs) =
    if n = 0 then none
    else match tail with
      | '-' :: '>' :: rest => some (.arrow, rest)
      | '-' :: rest => some (.none, rest)
      | _ => none := by
  rw [run, Prod.mk.injEq] at h
  obtain ⟨rfl, rfl⟩ := h
  cases cs with
  | nil => rfl
  | cons c cs =>
    by_cases hc : c = '.'
    · subst hc
      rfl
    · simp [dotted?, hc]

theorem exists_strokes_of_captioned? {label : Option String} {rest : List Char}
    (h : captioned? fill cs = some (label, rest)) : ∃ r, rest = fill :: fill :: r := by
  rw [captioned?_of_run rfl] at h
  split at h
  · obtain ⟨⟨text, r⟩, -, he⟩ := Option.map_eq_some_iff.1 h
    cases he
    exact ⟨r, rfl⟩
  · cases h

theorem stroke_of_stroked? {link : Link} {rest : List Char}
    (h : stroked? stroke fill cs = some (link, rest)) : link.stroke = stroke := by
  fun_induction stroked? stroke fill cs generalizing link rest with
  | case1 =>
    cases h
    rfl
  | case2 => cases h
  | case3 cs _ label r _ _ ih =>
    obtain ⟨⟨inner, after⟩, hr, he⟩ := Option.map_eq_some_iff.1 h
    have hs : inner.stroke = stroke := ih hr
    cases he
    exact hs

theorem Link.read?_trimStart (cs : List Char) : Link.read? (trimStart cs) = Link.read? cs := by
  rw [Link.read?, trimStart_trimStart, Link.read?]

end Chartboard.Flow

namespace Chartboard.Checked
open Chartboard.Text Chartboard.Flow

/-- What the scan of an operator comes to: nothing, a link with the cursor behind it, or a label
behind which the operator goes on. -/
inductive Scan where
  | failed
  | closed (link : Link) (cur : Cursor)
  | labelled (stroke : Stroke) (label : Option String) (cur : Cursor)

/-- Dots that follow a dash, up to the dash or the arrow that ends them. -/
def scanDots (cur : Cursor) (after : List Char) (dots : Nat) : Option Scan := do
  let tail ← slice? after dots (byteSize after)
  if startsWith ['-', '>'] tail then
    return .closed ⟨.dotted, .arrow, none⟩ (cur.advance (1 + dots + 2))
  else if startsWith ['-'] tail then
    return .closed ⟨.dotted, .none, none⟩ (cur.advance (1 + dots + 1))
  else
    return .failed

/-- The letters that end a pair of dashes. -/
def letters : List (Char × Cap) :=
  [('o', .filledCircle), ('x', .cross)]

def scanLetter (tail : List Char) : Option Cap :=
  letters.findSome? fun (letter, cap) =>
    match after? [letter] tail with
    | some after => if after.head?.any fun c => isBlank c || c == '|' then some cap else none
    | none => none

/-- A label between two strokes and the next two, with which the operator goes on. -/
def scanLabel (cur : Cursor) (tail : List Char) (stroke : Stroke) (fill : Char) (count : Nat) :
    Option Scan :=
  if tail.head?.any isBlank then
    match find? [fill, fill] tail with
    | none => some .failed
    | some place => do
      let text ← slice? tail 0 place
      return .labelled stroke (label? text) (cur.advance (count + place))
  else
    some .failed

def scanRun (cur : Cursor) (rest : List Char) (stroke : Stroke) (fill : Char) : Option Scan := do
  let count := leading fill rest
  let tail ← slice? rest count (byteSize rest)
  if 2 ≤ count ∧ startsWith ['>'] tail then
    return .closed ⟨stroke, .arrow, none⟩ (cur.advance (count + 1))
  else if 3 ≤ count then
    return .closed ⟨stroke, .none, none⟩ (cur.advance count)
  else if count ≠ 2 then
    return .failed
  else
    match if stroke = .solid then scanLetter tail else none with
    | some cap => return .closed ⟨stroke, cap, none⟩ (cur.advance 3)
    | none => scanLabel cur tail stroke fill count

def scanStrokes (cur : Cursor) (rest : List Char) : Option Scan :=
  if (bytes rest).head? = some (byte '-') then
    scanRun cur rest .solid '-'
  else if (bytes rest).head? = some (byte '=') then
    scanRun cur rest .thick '='
  else
    some .failed

def scan (cur : Cursor) : Option Scan := do
  let rest ← cur.rest?
  match after? ['-'] rest with
  | some after =>
    if 0 < leading '.' after then scanDots cur after (leading '.' after) else scanStrokes cur rest
  | none => scanStrokes cur rest

/-- An operator that goes on behind a label keeps that label and its own stroke. -/
def operator (cur : Cursor) : Option (Option (Link × Cursor)) := do
  match ← scan cur with
  | .failed => return none
  | .closed link cur => return some (link, cur)
  | .labelled stroke label cur =>
    -- A call written as a term would leave its place in the file in the fixpoint.
    match ← (by apply operator; exact cur : Option (Option (Link × Cursor))) with
    | none => return none
    | some (link, cur) => return some (⟨stroke, link.cap, label⟩, cur)
partial_fixpoint

def link (cur : Cursor) : Option (Option (Link × Cursor)) := do
  let cur ← cur.skipBlanks
  match ← operator cur with
  | none => return none
  | some (link, cur) =>
    let cur ← cur.skipBlanks
    match ← cur.eat ['|'] with
    | some cur =>
      match ← cur.takeUntil ['|'] with
      | none => return none
      | some (text, cur) => return some ({ link with label := label? text }, ← cur.skipBlanks)
    | none => return some (link, ← cur.skipBlanks)

variable {text rest : List Char} {stroke : Stroke} {fill : Char}

/-- What a run of strokes should come to. -/
def scanned (text : List Char) (stroke : Stroke) (fill : Char) (rest : List Char) : Scan :=
  match closed? fill rest with
  | some (cap, after) => .closed ⟨stroke, cap, none⟩ (.leaving text after)
  | none =>
    match captioned? fill rest with
    | some (label, after) => .labelled stroke label (.leaving text after)
    | none => .failed

theorem startsWith_singleton (c : Char) (cs : List Char) :
    startsWith [c] cs = (cs.head? == some c) := by
  cases cs with
  | nil => rfl
  | cons d cs =>
    by_cases h : c = d
    · simp [startsWith, after?, h]
    · simp [startsWith, after?, h, Ne.symm h]

theorem letter?_eq (tail : List Char) :
    letter? tail = (scanLetter tail).map fun cap => (cap, tail.tail) := by
  match tail with
  | [] => rfl
  | [c] =>
    by_cases ho : c = 'o'
    · subst ho
      rfl
    · by_cases hx : c = 'x'
      · subst hx
        rfl
      · simp [letter?, scanLetter, letters, after?, Ne.symm ho, Ne.symm hx]
  | c :: d :: rest =>
    by_cases ho : c = 'o'
    · by_cases hd : (isBlank d || d == '|') = true <;>
        simp [letter?, scanLetter, letters, after?, ho, hd]
    · by_cases hx : c = 'x'
      · by_cases hd : (isBlank d || d == '|') = true <;>
          simp [letter?, scanLetter, letters, after?, hx, hd]
      · simp [letter?, scanLetter, letters, after?, ho, hx, Ne.symm ho, Ne.symm hx]

theorem scanLetter_eq_some {tail : List Char} {cap : Cap} (h : scanLetter tail = some cap) :
    ∃ c after, tail = c :: after ∧ byteSize [c] = 1 := by
  obtain ⟨⟨letter, other⟩, hm, h⟩ := List.exists_of_findSome?_eq_some h
  cases ha : after? [letter] tail with
  | none => simp [ha] at h
  | some after =>
    refine ⟨letter, after, after?_eq_some_iff.1 ha, ?_⟩
    simp only [letters, List.mem_cons, Prod.mk.injEq, List.not_mem_nil, or_false] at hm
    rcases hm with ⟨rfl, -⟩ | ⟨rfl, -⟩ <;> decide

/-- Two strokes go on behind a label as the rest says, however long the label is. -/
theorem scanLabel_leaving (stroke : Stroke) {tail : List Char} (hr : run fill rest = (2, tail))
    (hadvance : ∀ part after, tail = part ++ after →
      (Cursor.leaving text rest).advance (2 + byteSize part) = .leaving text after) :
    scanLabel (.leaving text rest) tail stroke fill 2 = some (match captioned? fill rest with
      | some (label, after) => .labelled stroke label (.leaving text after)
      | none => .failed) := by
  rw [captioned?_of_run hr, scanLabel]
  by_cases hb : tail.head?.any isBlank = true
  · rw [if_pos hb, if_pos ⟨rfl, hb⟩]
    cases hc : cut [fill, fill] tail with
    | none => simp [find?, hc]
    | some found =>
      obtain ⟨label, after⟩ := found
      obtain rfl := eq_append_of_cut hc
      have hslice := slice?_front label ([fill, fill] ++ after)
      rw [← List.append_assoc] at hslice
      have ha := hadvance label ([fill, fill] ++ after) (List.append_assoc ..)
      simp [-List.append_assoc, find?, hc, hslice, ha]
  · rw [if_neg hb, if_neg fun h => hb h.2]

theorem scanRun_leaving (hf : Fills stroke fill) (h : rest <:+ text) :
    scanRun (.leaving text rest) rest stroke fill = some (scanned text stroke fill rest) := by
  obtain ⟨n, tail, hr⟩ : ∃ n tail, run fill rest = (n, tail) := ⟨_, _, rfl⟩
  have hcount : leading fill rest = n := by
    rw [leading_eq hf.ascii]
    exact congrArg Prod.fst hr
  have hbytes := byteSize_replicate hf.ascii n
  obtain rfl := eq_append_of_run hr
  have hslice := slice?_back (List.replicate n fill) tail
  rw [hbytes] at hslice
  have hadvance : ∀ part after, tail = part ++ after →
      (Cursor.leaving text (List.replicate n fill ++ tail)).advance (n + byteSize part) =
        .leaving text after := by
    rintro part after rfl
    rw [← List.append_assoc] at h ⊢
    have ha := Cursor.advance_leaving h
    rwa [byteSize_append, hbytes] at ha
  simp only [scanRun, scanned, hcount, hslice, closed?_of_run hr, startsWith_singleton, beq_iff_eq,
    Option.bind_eq_bind, Option.bind_some, Option.pure_def]
  by_cases hlow : n < 2
  · -- So few strokes are no operator, whatever follows them.
    have htwo : ¬ 2 ≤ n := Nat.not_le.2 hlow
    have hthree : ¬ 3 ≤ n := fun h => htwo (Nat.le_of_succ_le h)
    have hne : n ≠ 2 := Nat.ne_of_lt hlow
    simp [htwo, hthree, hne, captioned?_of_run hr]
  by_cases harrow : tail.head? = some '>'
  · obtain ⟨after, rfl⟩ := List.head?_eq_some_iff.1 harrow
    have ha := hadvance ['>'] after rfl
    have hone : byteSize ['>'] = 1 := by decide
    rw [hone] at ha
    rw [if_pos ⟨Nat.not_lt.1 hlow, harrow⟩, if_pos harrow, if_pos (Nat.not_lt.1 hlow), ha]
    rfl
  rw [if_neg fun h => harrow h.2, if_neg harrow]
  by_cases hlong : 3 ≤ n
  · have ha := hadvance [] tail rfl
    rw [byteSize_nil, Nat.add_zero] at ha
    rw [if_pos hlong, if_pos hlong, ha]
  obtain rfl : n = 2 := by omega
  have hlabel := scanLabel_leaving stroke hr hadvance
  rw [if_neg hlong, if_neg hlong, if_neg (not_not.2 rfl)]
  by_cases hd : fill = '-'
  · rw [if_pos (hf.solid_iff.2 hd), if_pos ⟨rfl, hd⟩, letter?_eq]
    cases hl : scanLetter tail with
    | none => exact hlabel
    | some cap =>
      obtain ⟨c, after, rfl, hone⟩ := scanLetter_eq_some hl
      have ha := hadvance [c] after rfl
      rw [hone] at ha
      exact congrArg (fun cur => some (Scan.closed ⟨stroke, cap, none⟩ cur)) ha
  · rw [if_neg fun h => hd (hf.solid_iff.1 h), if_neg fun h => hd h.2]
    exact hlabel

def strokesAt (text rest : List Char) : Scan :=
  match rest with
  | '-' :: _ => scanned text .solid '-' rest
  | '=' :: _ => scanned text .thick '=' rest
  | _ => .failed

/-- What the scan of an operator should come to. -/
def scannedAt (text rest : List Char) : Scan :=
  match dotted? rest with
  | some (cap, after) => .closed ⟨.dotted, cap, none⟩ (.leaving text after)
  | none => strokesAt text rest

theorem scanDots_leaving {after tail : List Char} {n : Nat} (h : '-' :: after <:+ text)
    (hr : run '.' after = (n, tail)) (hn : 0 < n) :
    scanDots (.leaving text ('-' :: after)) after n = some (match dotted? ('-' :: after) with
      | some (cap, rest) => .closed ⟨.dotted, cap, none⟩ (.leaving text rest)
      | none => .failed) := by
  obtain rfl := eq_append_of_run hr
  have hdots : byteSize (List.replicate n '.') = n := byteSize_replicate (by decide) n
  have hslice := slice?_back (List.replicate n '.') tail
  rw [hdots] at hslice
  have hadvance : ∀ part rest, tail = part ++ rest →
      (Cursor.leaving text ('-' :: (List.replicate n '.' ++ tail))).advance
        (1 + n + byteSize part) = .leaving text rest := by
    rintro part rest rfl
    rw [← List.append_assoc, ← List.cons_append] at h ⊢
    have ha := Cursor.advance_leaving h
    have hdash : '-'.utf8Size = 1 := by decide
    rwa [byteSize_cons, byteSize_append, hdots, hdash, ← Nat.add_assoc] at ha
  rw [scanDots, hslice, dotted?_of_run hr, if_neg (Nat.ne_of_gt hn)]
  simp only [Option.bind_eq_bind, Option.bind_some, Option.pure_def]
  cases tail with
  | nil => rfl
  | cons c rest =>
    by_cases hc : c = '-'
    · subst hc
      have ha := hadvance ['-'] rest rfl
      have hone : byteSize ['-'] = 1 := by decide
      rw [hone] at ha
      cases rest with
      | nil => exact congrArg (fun cur => some (Scan.closed _ cur)) ha
      | cons d rest =>
        by_cases hd : d = '>'
        · subst hd
          exact congrArg (fun cur => some (Scan.closed _ cur)) (hadvance ['-', '>'] rest rfl)
        · simp [startsWith, after?, hd, Ne.symm hd, ha]
    · simp [startsWith, after?, hc, Ne.symm hc]

theorem scanStrokes_leaving (h : rest <:+ text) :
    scanStrokes (.leaving text rest) rest = some (strokesAt text rest) := by
  have hdash : (bytes rest).head? = some (byte '-') ↔ rest.head? = some '-' :=
    head?_bytes (by decide) rest
  have hequal : (bytes rest).head? = some (byte '=') ↔ rest.head? = some '=' :=
    head?_bytes (by decide) rest
  rw [scanStrokes]
  split
  · next hb =>
    obtain ⟨after, rfl⟩ := List.head?_eq_some_iff.1 (hdash.1 hb)
    exact scanRun_leaving .solid h
  · next hnd =>
    split
    · next hb =>
      obtain ⟨after, rfl⟩ := List.head?_eq_some_iff.1 (hequal.1 hb)
      exact scanRun_leaving .thick h
    · next hne =>
      rw [hdash] at hnd
      rw [hequal] at hne
      unfold strokesAt
      split
      · exact absurd rfl hnd
      · exact absurd rfl hne
      · rfl

theorem scanned_dash {after : List Char} (h : after.head? ≠ some '-') :
    scanned text .solid '-' ('-' :: after) = .failed := by
  have hr : run '-' ('-' :: after) = (1, after) := by
    cases after with
    | nil => rfl
    | cons c after =>
      have hc : c ≠ '-' := by simpa using h
      simp [run, hc]
  simp [scanned, closed?_of_run hr, captioned?_of_run hr]

theorem scan_leaving (h : rest <:+ text) :
    scan (.leaving text rest) = some (scannedAt text rest) := by
  have hstrokes := scanStrokes_leaving h
  rw [scan, Cursor.rest?_leaving h]
  simp only [Option.bind_eq_bind, Option.bind_some]
  cases ha : after? ['-'] rest with
  | none =>
    have hd : dotted? rest = none := by
      cases rest with
      | nil => rfl
      | cons c rest =>
        have hc : '-' ≠ c := by simpa [after?] using ha
        simp [dotted?, Ne.symm hc]
    rw [scannedAt, hd]
    exact hstrokes
  | some after =>
    obtain rfl := after?_eq_some_iff.1 ha
    obtain ⟨n, tail, hr⟩ : ∃ n tail, run '.' after = (n, tail) := ⟨_, _, rfl⟩
    have hcount : leading '.' after = n := by
      rw [leading_eq (by decide)]
      exact congrArg Prod.fst hr
    have hd := dotted?_of_run hr
    rw [List.singleton_append, scannedAt]
    rw [List.singleton_append] at h hstrokes
    simp only [hcount]
    by_cases hn : 0 < n
    · have hafter : after.head? ≠ some '-' := by
        obtain ⟨m, rfl⟩ := Nat.exists_eq_succ_of_ne_zero (Nat.ne_of_gt hn)
        rw [eq_append_of_run hr, List.replicate_succ]
        simp
      rw [if_pos hn, scanDots_leaving h hr hn]
      cases dotted? ('-' :: after) with
      | none => exact congrArg some (scanned_dash hafter).symm
      | some found => rfl
    · rw [if_neg hn, hd, if_pos (Nat.eq_zero_of_not_pos hn)]
      exact hstrokes

theorem scannedAt_strokes (hf : Fills stroke fill) (text after : List Char) :
    scannedAt text (fill :: fill :: after) = scanned text stroke fill (fill :: fill :: after) := by
  cases hf with
  | solid => rfl
  | thick => rfl

/-- Strokes and labels are read to the end of their operator. Each label is shorter than what it
stands in, so the scan comes to an end. -/
theorem operator_leaving_strokes (hf : Fills stroke fill) (h : rest <:+ text)
    (hs : scannedAt text rest = scanned text stroke fill rest) :
    operator (.leaving text rest) =
      some ((stroked? stroke fill rest).map fun (link, after) => (link, .leaving text after)) := by
  fun_induction stroked? stroke fill rest with
  | case1 rest cap after hc =>
    rw [operator, scan_leaving h, hs]
    simp [scanned, hc]
  | case2 rest hn hc =>
    rw [operator, scan_leaving h, hs]
    simp [scanned, hn, hc]
  | case3 rest hn label after hc hl ih =>
    obtain ⟨r, rfl⟩ := exists_strokes_of_captioned? hc
    have hafter := ih ((captioned?_suffix hc).trans h) (scannedAt_strokes hf text r)
    rw [operator, scan_leaving h, hs]
    simp only [scanned, hn, hc, hafter, Option.bind_eq_bind, Option.bind_some, Option.map_map]
    cases hk : stroked? stroke fill (fill :: fill :: r) with
    | none => rfl
    | some found =>
      obtain ⟨link, rest⟩ := found
      obtain rfl := stroke_of_stroked? hk
      rfl

theorem operator_leaving (h : rest <:+ text) : operator (.leaving text rest) =
    some ((operator? rest).map fun (link, after) => (link, .leaving text after)) := by
  cases hd : dotted? rest with
  | some found =>
    rw [operator, scan_leaving h, scannedAt, hd]
    unfold operator?
    rw [hd]
    rfl
  | none =>
    have hs : scannedAt text rest = strokesAt text rest := by rw [scannedAt, hd]
    unfold operator?
    rw [hd]
    dsimp only
    split
    · exact operator_leaving_strokes .solid h hs
    · exact operator_leaving_strokes .thick h hs
    · next hdash hequal =>
      have hf : strokesAt text rest = .failed := by
        unfold strokesAt
        split
        · exact absurd rfl (hdash _)
        · exact absurd rfl (hequal _)
        · rfl
      rw [operator, scan_leaving h, hs, hf]
      rfl

/-- A link is read as it is from the characters, and no place on the way is missed. -/
theorem link_leaving (h : rest <:+ text) : link (.leaving text rest) =
    some ((Link.read? rest).map fun (link, after) => (link, .leaving text after)) := by
  have hstart := (trimStart_suffix rest).trans h
  rw [link, Cursor.skipBlanks_leaving h, Link.read?]
  simp only [Option.bind_eq_bind, Option.bind_some, operator_leaving hstart]
  cases ho : operator? (trimStart rest) with
  | none => rfl
  | some found =>
    obtain ⟨link, after⟩ := found
    have hafter := (operator?_suffix ho).1.trans hstart
    have hbar := (trimStart_suffix after).trans hafter
    simp only [Option.map_some, Option.bind_some, Cursor.skipBlanks_leaving hafter,
      Cursor.eat_leaving hbar]
    cases hb : after? ['|'] (trimStart after) with
    | some bar =>
      have he : trimStart after = '|' :: bar := after?_eq_some_iff.1 hb
      have hend := (List.suffix_cons '|' bar).trans (he ▸ hbar)
      simp only [he, Option.map_some, Cursor.takeUntil_leaving hend, Option.bind_some]
      cases hc : cut ['|'] bar with
      | none => rfl
      | some found =>
        obtain ⟨label, behind⟩ := found
        have hbehind : behind <:+ text := by
          refine List.IsSuffix.trans ?_ hend
          rw [eq_append_of_cut hc]
          exact List.suffix_append _ _
        simp [Cursor.skipBlanks_leaving hbehind]
    | none =>
      have hread : ∀ bar, trimStart after ≠ '|' :: bar := by
        intro bar he
        rw [he] at hb
        cases hb
      simp only [Option.map_none, Cursor.skipBlanks_leaving hbar, trimStart_trimStart,
        Option.bind_some, Option.pure_def]
      rfl

end Chartboard.Checked
