import Chartboard.Decimal.Reader

namespace Chartboard

structure Drawing where
  startX : Option Float := none
  startY : Option Float := none
  nodeWidth : Option Float := none
  stencils : Bool := false

/-- What the program is asked to do with the text at `input`, a path or a dash for the standard
input. -/
inductive Command where
  | parse (input : String)
  | plan (input : String) (drawing : Drawing)
  | generate (input : String) (drawing : Drawing) (board parent : Option String)

namespace Command

def input : Command → String
  | parse input => input
  | plan input _ => input
  | generate input .. => input

inductive Argument where
  | positional (value : String)
  | option (name value : String)
  | flag (name : String)

/-- Which options a command takes with a value and which without. -/
structure Accepted where
  valued : List String
  flags : List String

/-- A dash alone is a value like any other; what else starts with a dash is an option. -/
def looksLikeOption (s : String) : Bool :=
  s.startsWith "-" && s != "-"

/-- An option after its two dashes, with the value after an equals sign or else the next argument. -/
def option? (accepted : Accepted) (word : List Char) (next : List String) :
    Option (Argument × List String) :=
  let name := String.ofList (word.takeWhile (· != '='))
  let attached := (word.dropWhile (· != '=')).tail?
  if accepted.valued.contains name then
    match attached, next with
    | some value, _ => some (.option name (String.ofList value), next)
    | none, value :: next =>
      if looksLikeOption value then none else some (.option name value, next)
    | none, [] => none
  else if accepted.flags.contains name ∧ attached.isNone then
    some (.flag name, next)
  else
    none

theorem option?_length {accepted : Accepted} {word : List Char} {next rest : List String}
    {argument : Argument} (h : option? accepted word next = some (argument, rest)) :
    rest.length ≤ next.length := by
  unfold option? at h
  simp only at h
  split at h
  · split at h
    · cases h
      exact Nat.le_refl _
    · split at h
      · simp at h
      · cases h
        exact Nat.le_succ _
    · simp at h
  · split at h
    · cases h
      exact Nat.le_refl _
    · simp at h

/-- Sorts arguments by their part in the command. After two dashes alone there are no options. -/
def arguments? (accepted : Accepted) (words : List String) : Option (List Argument) :=
  match words with
  | [] => some []
  | word :: next =>
    if word = "--" then
      some (next.map .positional)
    else if looksLikeOption word then
      match word.toList with
      | '-' :: '-' :: name =>
        match h : option? accepted name next with
        | some (argument, rest) =>
          have := option?_length h
          (arguments? accepted rest).map (argument :: ·)
        | none => none
      | _ => none
    else
      (arguments? accepted next).map (.positional word :: ·)
termination_by words.length
decreasing_by all_goals simp only [List.length_cons]; omega

/-- The values of an option, which may be given once. -/
def once? (name : String) (arguments : List Argument) : Option (Option String) :=
  match arguments.filterMap fun
    | .option n value => if n = name then some value else none
    | .flag n => if n = name then some "" else none
    | .positional _ => none with
  | [] => some none
  | [value] => some (some value)
  | _ => none

def number? (name : String) (arguments : List Argument) : Option (Option Float) := do
  match ← once? name arguments with
  | none => return none
  | some value => return some (← Decimal.float? value.toList)

def onlyInput? (arguments : List Argument) : Option String :=
  match arguments.filterMap fun
    | .positional value => some value
    | _ => none with
  | [input] => some input
  | _ => none

def drawing? (arguments : List Argument) : Option Drawing := do
  return {
    startX := ← number? "start-x" arguments
    startY := ← number? "start-y" arguments
    nodeWidth := ← number? "node-width" arguments
    stencils := (← once? "stencils" arguments).isSome }

def measures : List String := ["start-x", "start-y", "node-width"]

/-- A command from the arguments of the program, if they make one. -/
def ofArguments? : List String → Option Command
  | "parse" :: words => do
    let arguments ← arguments? ⟨[], []⟩ words
    return .parse (← onlyInput? arguments)
  | "plan" :: words => do
    let arguments ← arguments? ⟨measures, ["stencils"]⟩ words
    return .plan (← onlyInput? arguments) (← drawing? arguments)
  | "generate" :: words => do
    let arguments ← arguments? ⟨"board" :: "parent-id" :: measures, ["stencils"]⟩ words
    return .generate (← onlyInput? arguments) (← drawing? arguments) (← once? "board" arguments)
      (← once? "parent-id" arguments)
  | _ => none

end Command
end Chartboard
