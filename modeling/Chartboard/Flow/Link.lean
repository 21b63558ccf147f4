import Chartboard.Diagram.Vocabulary
import Chartboard.Text.Blank
import Chartboard.Text.Search

namespace Chartboard.Flow
open Text

structure Link where
  stroke : Stroke
  cap : Cap
  label : Option String
deriving DecidableEq

/-- Removes one pair of quotes around a text. -/
def unquote (cs : List Char) : List Char :=
  match cs with
  | '"' :: r => if r.getLast? = some '"' then r.dropLast else cs
  | _ => cs

/-- The label that a text gives to a link; a blank text gives none. -/
def label? (cs : List Char) : Option String :=
  match trim (unquote (trim cs)) with
  | [] => none
  | c :: r => some (String.ofList (c :: r))

/-- Dots between single dashes. -/
def dotted? : List Char → Option (Cap × List Char)
  | '-' :: '.' :: cs =>
    match cs.dropWhile (· == '.') with
    | '-' :: '>' :: rest => some (.arrow, rest)
    | '-' :: rest => some (.none, rest)
    | _ => none
  | _ => none

/-- A letter that ends a pair of dashes; a blank or a label follows it. -/
def letter? : List Char → Option (Cap × List Char)
  | 'o' :: c :: rest => if isBlank c || c == '|' then some (.filledCircle, c :: rest) else none
  | 'x' :: c :: rest => if isBlank c || c == '|' then some (.cross, c :: rest) else none
  | _ => none

/-- The length of the run of `fill` at the start of a text, and what follows it. -/
def run (fill : Char) (cs : List Char) : Nat × List Char :=
  ((cs.takeWhile (· == fill)).length, cs.dropWhile (· == fill))

/-- A run of at least two strokes with a cap, or of at least three without. -/
def closed? (fill : Char) (cs : List Char) : Option (Cap × List Char) :=
  match run fill cs with
  | (n, '>' :: rest) => if 2 ≤ n then some (.arrow, rest) else none
  | (n, rest) =>
    if 3 ≤ n then some (.none, rest)
    else if n = 2 ∧ fill = '-' then letter? rest
    else none

/-- Two strokes and a text up to the next two strokes, with which the rest starts. -/
def captioned? (fill : Char) (cs : List Char) : Option (Option String × List Char) :=
  match run fill cs with
  | (2, c :: tail) =>
    if isBlank c then
      (cut [fill, fill] (c :: tail)).map fun (text, rest) => (label? text, fill :: fill :: rest)
    else
      none
  | _ => none

theorem run_length (fill : Char) (cs : List Char) :
    (run fill cs).1 + (run fill cs).2.length = cs.length := by
  simp only [run, ← List.length_append, List.takeWhile_append_dropWhile]

theorem captioned?_length {fill : Char} {cs rest : List Char} {label : Option String}
    (h : captioned? fill cs = some (label, rest)) : rest.length + 2 ≤ cs.length := by
  unfold captioned? at h
  split at h
  · next c tail hr =>
    split at h
    · obtain ⟨⟨text, r⟩, hc, he⟩ := Option.map_eq_some_iff.1 h
      cases he
      have hl := run_length fill cs
      have hk := length_of_cut hc
      rw [hr] at hl
      simp only [List.length_cons, List.length_nil] at *
      omega
    · simp at h
  · simp at h

/-- A run with a cap, or a label between two runs. Of a label inside a label only the outer one
stays. -/
def stroked? (stroke : Stroke) (fill : Char) (cs : List Char) : Option (Link × List Char) :=
  match closed? fill cs with
  | some (cap, rest) => some (⟨stroke, cap, none⟩, rest)
  | none =>
    match h : captioned? fill cs with
    | none => none
    | some (label, rest) =>
      have := captioned?_length h
      (stroked? stroke fill rest).map fun (link, rest) => ({ link with label }, rest)
termination_by cs.length
decreasing_by omega

def operator? (cs : List Char) : Option (Link × List Char) :=
  match dotted? cs with
  | some (cap, rest) => some (⟨.dotted, cap, none⟩, rest)
  | none =>
    match cs with
    | '-' :: _ => stroked? .solid '-' cs
    | '=' :: _ => stroked? .thick '=' cs
    | _ => none

/-- An operator and the label between bars after it, which stands in place of the operator's. -/
def Link.read? (cs : List Char) : Option (Link × List Char) := do
  let (link, rest) ← operator? (trimStart cs)
  match trimStart rest with
  | '|' :: rest =>
    let (text, rest) ← cut ['|'] rest
    return ({ link with label := label? text }, trimStart rest)
  | rest => return (link, rest)

theorem run_suffix (fill : Char) (cs : List Char) : (run fill cs).2 <:+ cs :=
  List.dropWhile_suffix _

theorem letter?_suffix {cs rest : List Char} {cap : Cap} (h : letter? cs = some (cap, rest)) :
    rest <:+ cs ∧ rest.length + 1 = cs.length := by
  unfold letter? at h
  split at h
  · split at h
    · cases h
      exact ⟨List.suffix_cons _ _, rfl⟩
    · simp at h
  · split at h
    · cases h
      exact ⟨List.suffix_cons _ _, rfl⟩
    · simp at h
  · simp at h

theorem dotted?_suffix {cs rest : List Char} {cap : Cap} (h : dotted? cs = some (cap, rest)) :
    rest <:+ cs ∧ rest.length + 3 ≤ cs.length := by
  unfold dotted? at h
  split at h
  · next cs =>
    have hs := List.dropWhile_suffix (p := (· == '.')) (l := cs)
    have hl := hs.length_le
    split at h
    · next hr =>
      cases h
      rw [hr] at hs hl
      simp only [List.length_cons] at *
      exact ⟨(List.suffix_append ['-', '>'] rest).trans (hs.trans (List.suffix_append ['-', '.'] cs)),
        by omega⟩
    · next hr =>
      cases h
      rw [hr] at hs hl
      simp only [List.length_cons] at *
      exact ⟨(List.suffix_append ['-'] rest).trans (hs.trans (List.suffix_append ['-', '.'] cs)),
        by omega⟩
    · simp at h
  · simp at h

theorem closed?_suffix {fill : Char} {cs rest : List Char} {cap : Cap}
    (h : closed? fill cs = some (cap, rest)) : rest <:+ cs ∧ rest.length + 3 ≤ cs.length := by
  have hs := run_suffix fill cs
  have hl := run_length fill cs
  unfold closed? at h
  split at h
  · next n r hr =>
    rw [hr] at hs hl
    split at h
    · cases h
      simp only [List.length_cons] at hl
      exact ⟨(List.suffix_cons _ _).trans hs, by omega⟩
    · simp at h
  · next n r _ hr =>
    rw [hr] at hs hl
    simp only at hs hl
    split at h
    · cases h
      exact ⟨hs, by omega⟩
    · split at h
      · have hm := letter?_suffix h
        exact ⟨hm.1.trans hs, by omega⟩
      · simp at h

theorem captioned?_suffix {fill : Char} {cs rest : List Char} {label : Option String}
    (h : captioned? fill cs = some (label, rest)) : rest <:+ cs := by
  unfold captioned? at h
  split at h
  · next c tail hr =>
    split at h
    · obtain ⟨⟨text, r⟩, hc, he⟩ := Option.map_eq_some_iff.1 h
      cases he
      have hs := run_suffix fill cs
      rw [hr] at hs
      refine List.IsSuffix.trans ?_ hs
      rw [eq_append_of_cut hc, List.append_assoc]
      exact List.suffix_append text _
    · simp at h
  · simp at h

theorem stroked?_suffix {stroke : Stroke} {fill : Char} {cs rest : List Char} {link : Link}
    (h : stroked? stroke fill cs = some (link, rest)) :
    rest <:+ cs ∧ rest.length + 3 ≤ cs.length := by
  fun_induction stroked? stroke fill cs generalizing link rest with
  | case1 cs cap r hc =>
    cases h
    exact closed?_suffix hc
  | case2 => simp at h
  | case3 cs _ label r hr hl ih =>
    obtain ⟨⟨l, t⟩, ht, he⟩ := Option.map_eq_some_iff.1 h
    cases he
    have hs := ih ht
    exact ⟨hs.1.trans (captioned?_suffix hr), by omega⟩

/-- An operator takes at least three characters, and what follows it is the end of the text. -/
theorem operator?_suffix {cs rest : List Char} {link : Link}
    (h : operator? cs = some (link, rest)) : rest <:+ cs ∧ rest.length + 3 ≤ cs.length := by
  unfold operator? at h
  split at h
  · next hd =>
    cases h
    exact dotted?_suffix hd
  · split at h
    · exact stroked?_suffix h
    · exact stroked?_suffix h
    · simp at h

theorem Link.read?_suffix {cs rest : List Char} {link : Link}
    (h : Link.read? cs = some (link, rest)) : rest <:+ cs ∧ rest.length + 3 ≤ cs.length := by
  simp only [Link.read?, Option.bind_eq_bind, Option.bind_eq_some_iff, Prod.exists] at h
  obtain ⟨l, r, ho, h⟩ := h
  have hs := operator?_suffix ho
  have hc := trimStart_suffix cs
  have hr := trimStart_suffix r
  have := hc.length_le
  have := hr.length_le
  split at h
  · next bar heq =>
    simp only [Option.bind_eq_some_iff, Prod.exists] at h
    obtain ⟨text, after, hk, h⟩ := h
    simp only [Option.pure_def, Option.some.injEq, Prod.mk.injEq] at h
    obtain ⟨-, rfl⟩ := h
    have ha := trimStart_suffix after
    have := ha.length_le
    have hl := length_of_cut hk
    have hb : after <:+ bar := by
      rw [eq_append_of_cut hk]
      exact List.suffix_append _ _
    rw [heq] at hr
    simp_all only [List.length_cons, List.length_nil]
    exact ⟨ha.trans (hb.trans ((List.suffix_cons _ _).trans (hr.trans (hs.1.trans hc)))), by omega⟩
  · simp only [Option.pure_def, Option.some.injEq, Prod.mk.injEq] at h
    obtain ⟨-, rfl⟩ := h
    exact ⟨hr.trans (hs.1.trans hc), by omega⟩

end Chartboard.Flow
