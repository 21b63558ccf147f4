namespace Chartboard.Decimal

def digitsValue (cs : List Char) : Nat :=
  cs.foldl (fun n c => 10 * n + (c.toNat - '0'.toNat)) 0

/-- A whole number below a limit, in digits after an optional plus sign. -/
def nat? (limit : Nat) (cs : List Char) : Option Nat :=
  let digits := if cs.head? = some '+' then cs.tail else cs
  if !digits.isEmpty && digits.all Char.isDigit && digitsValue digits < limit then
    some (digitsValue digits)
  else
    none

def sign : List Char → Bool × List Char
  | '-' :: cs => (true, cs)
  | '+' :: cs => (false, cs)
  | cs => (false, cs)

def exponent? : List Char → Option Int
  | [] => some 0
  | e :: cs =>
    let (negative, digits) := sign cs
    if e.toLower = 'e' ∧ digits ≠ [] ∧ digits.all Char.isDigit then
      some (if negative then -(digitsValue digits : Int) else digitsValue digits)
    else
      none

/-- The number nearest to digits times a power of ten. What is far too large is infinite, and what
is far too small is zero. -/
def nearest (digits : List Char) (exponent : Int) : Float :=
  let value := digitsValue digits
  if value = 0 ∨ exponent + digits.length < -400 then 0
  else if 400 < exponent then 1.0 / 0.0
  else if exponent < 0 then Float.ofScientific value true (-exponent).toNat
  else Float.ofScientific value false exponent.toNat

/-- Digits around an optional point, at least one of them, and an optional power of ten. -/
def magnitude? (cs : List Char) : Option Float :=
  let whole := cs.takeWhile Char.isDigit
  let afterWhole := cs.dropWhile Char.isDigit
  let (places, rest) := match afterWhole with
    | '.' :: r => (r.takeWhile Char.isDigit, r.dropWhile Char.isDigit)
    | r => ([], r)
  if whole.isEmpty && places.isEmpty then
    none
  else
    (exponent? rest).map fun e => nearest (whole ++ places) (e - places.length)

/-- A number in decimal or one of the words for what is not finite, after an optional sign. -/
def float? (cs : List Char) : Option Float :=
  let (negative, cs) := sign cs
  let word := String.ofList (cs.map Char.toLower)
  let x :=
    if word = "inf" ∨ word = "infinity" then some (1.0 / 0.0)
    else if word = "nan" then some (0.0 / 0.0)
    else magnitude? cs
  if negative then x.map (- ·) else x

end Chartboard.Decimal
