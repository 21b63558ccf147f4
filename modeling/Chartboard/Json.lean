import Chartboard.Decimal.Printer

namespace Chartboard

inductive Json where
  | null
  | bool (b : Bool)
  | nat (n : Nat)
  | float (x : Float)
  | text (s : String)
  | list (values : List Json)
  | record (fields : List (String × Json))
deriving Inhabited

namespace Json

def optional (f : α → Json) : Option α → Json
  | some a => f a
  | none => null

def field? (name : String) : Json → Option Json
  | record fields => fields.lookup name
  | _ => none

/-- Numbers from the fifth place after the point to the sixteenth before it are written in places,
and whole ones end in a zero after the point. A power of ten has its sign. -/
def floatStyle : Decimal.Style := ⟨.even, fun e => -5 ≤ e && e ≤ 15, ".0", "+"⟩

/-- There is no number for what is not finite. -/
def floatText (x : Float) : String :=
  if x.isFinite then floatStyle.render x else "null"

/-- Quotes, backslashes and control characters are escaped, and nothing else. -/
def escaped (c : Char) : List Char :=
  match c with
  | '"' => ['\\', '"']
  | '\\' => ['\\', '\\']
  | '\n' => ['\\', 'n']
  | '\r' => ['\\', 'r']
  | '\t' => ['\\', 't']
  | c =>
    if c.toNat = 8 then ['\\', 'b']
    else if c.toNat = 12 then ['\\', 'f']
    else if c.toNat < 32 then
      '\\' :: 'u' :: '0' :: '0' :: [Nat.digitChar (c.toNat / 16), Nat.digitChar (c.toNat % 16)]
    else [c]

def quoted (s : String) : String :=
  String.ofList ('"' :: s.toList.flatMap escaped ++ ['"'])

def newline (depth : Nat) : String :=
  String.ofList ('\n' :: List.replicate (2 * depth) ' ')

mutual

/-- Writes a value that stands at some depth inside others after what is written already. -/
def write (depth : Nat) (out : String) : Json → String
  | null => out ++ "null"
  | bool b => out ++ if b then "true" else "false"
  | nat n => out ++ toString n
  | float x => out ++ floatText x
  | text s => out ++ quoted s
  | list [] => out ++ "[]"
  | list (v :: vs) =>
    writeValues (depth + 1) (write (depth + 1) (out ++ "[" ++ newline (depth + 1)) v) vs ++
      newline depth ++ "]"
  | record [] => out ++ "\x7b\x7d"
  | record ((name, v) :: fields) =>
    writeFields (depth + 1)
      (write (depth + 1) (out ++ "\x7b" ++ newline (depth + 1) ++ quoted name ++ ": ") v) fields ++
      newline depth ++ "\x7d"

def writeValues (depth : Nat) (out : String) : List Json → String
  | [] => out
  | v :: vs => writeValues depth (write depth (out ++ "," ++ newline depth) v) vs

def writeFields (depth : Nat) (out : String) : List (String × Json) → String
  | [] => out
  | (name, v) :: fields =>
    writeFields depth (write depth (out ++ "," ++ newline depth ++ quoted name ++ ": ") v) fields

end

def render (v : Json) : String :=
  write 0 "" v

end Json
end Chartboard
