import Chartboard.Flow.Link
import Chartboard.Text.Alphanumeric

namespace Chartboard.Flow
open Text

structure Bracket where
  opener : List Char
  closer : List Char
  shape : Shape

/-- An opener that begins with another one stands before it. -/
def brackets : List Bracket :=
  [⟨['(', '('], [')', ')'], .circle⟩,
   ⟨['(', '['], [']', ')'], .stadium⟩,
   ⟨['[', '('], [')', ']'], .cylinder⟩,
   ⟨['{', '{'], ['}', '}'], .hexagon⟩,
   ⟨['[', '/'], ['/', ']'], .parallelogram⟩,
   ⟨['[', '\\'], ['\\', ']'], .trapezoid⟩,
   ⟨['('], [')'], .rounded⟩,
   ⟨['{'], ['}'], .decision⟩,
   ⟨['['], [']'], .rectangle⟩,
   ⟨['>'], [']'], .parallelogram⟩]

structure Appearance where
  label : String
  shape : Shape
deriving DecidableEq

structure Mention where
  id : String
  appearance : Option Appearance
deriving DecidableEq

def isWordChar (c : Char) : Bool :=
  isAlphanumeric c || c == '_'

/-- The text in one pair of brackets; the first pair that closes counts. Without a text the id is
the label. -/
def Bracket.read? (id : List Char) (bracket : Bracket) (cs : List Char) :
    Option (Appearance × List Char) := do
  let (text, rest) ← cut bracket.closer (← after? bracket.opener cs)
  let label := unquote (trim text)
  return (⟨String.ofList (if label.isEmpty then id else label), bracket.shape⟩, rest)

/-- An id and its brackets. Brackets that open and do not close are no mention. -/
def Mention.read? (cs : List Char) : Option (Mention × List Char) :=
  let id := cs.takeWhile isWordChar
  let rest := cs.dropWhile isWordChar
  if id.isEmpty then
    none
  else if brackets.any fun b => startsWith b.opener rest then
    (brackets.findSome? (·.read? id rest)).map fun (appearance, rest) =>
      (⟨String.ofList id, some appearance⟩, rest)
  else
    some (⟨String.ofList id, none⟩, rest)

theorem Bracket.read?_suffix {id cs rest : List Char} {b : Bracket} {a : Appearance}
    (h : b.read? id cs = some (a, rest)) : rest <:+ cs := by
  simp only [Bracket.read?, Option.bind_eq_bind, Option.bind_eq_some_iff, Prod.exists,
    Option.pure_def, Option.some.injEq, Prod.mk.injEq] at h
  obtain ⟨inner, hi, text, r, hc, -, rfl⟩ := h
  rw [after?_eq_some_iff.1 hi, eq_append_of_cut hc, ← List.append_assoc]
  exact List.suffix_append _ _

theorem Mention.read?_suffix {cs rest : List Char} {m : Mention}
    (h : Mention.read? cs = some (m, rest)) : rest <:+ cs ∧ rest.length < cs.length := by
  have hs := List.dropWhile_suffix (p := isWordChar) (l := cs)
  have hl := congrArg List.length (List.takeWhile_append_dropWhile (p := isWordChar) (l := cs))
  rw [List.length_append] at hl
  simp only [Mention.read?] at h
  split at h
  · simp at h
  · next hne =>
    have := List.length_pos_iff.2 fun h => hne (List.isEmpty_iff.2 h)
    split at h
    · obtain ⟨⟨a, r⟩, ha, he⟩ := Option.map_eq_some_iff.1 h
      cases he
      obtain ⟨b, -, hb⟩ := List.exists_of_findSome?_eq_some ha
      have hr := Bracket.read?_suffix hb
      exact ⟨hr.trans hs, Nat.lt_of_le_of_lt hr.length_le (by omega)⟩
    · cases h
      exact ⟨hs, by omega⟩

/-- Links, each with the mention it leads to, up to the end of a line. -/
def hops? (cs : List Char) : Option (List (Link × Mention)) :=
  if (trimStart cs).isEmpty then
    some []
  else
    match hl : Link.read? cs with
    | none => none
    | some (link, rest) =>
      match hm : Mention.read? rest with
      | none => none
      | some (mention, rest) =>
        have := Link.read?_suffix hl
        have := Mention.read?_suffix hm
        (hops? rest).map ((link, mention) :: ·)
termination_by cs.length
decreasing_by omega

structure Statement where
  first : Mention
  hops : List (Link × Mention)
deriving DecidableEq

def Statement.read? (cs : List Char) : Option Statement := do
  let (first, rest) ← Mention.read? cs
  return ⟨first, ← hops? rest⟩

def Statement.mentions (s : Statement) : List Mention :=
  s.first :: s.hops.map (·.2)

end Chartboard.Flow
