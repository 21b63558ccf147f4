namespace Chartboard.Decimal

/-- A positive number as a multiple of a power of two. -/
structure Binary where
  mantissa : Nat
  exponent : Int

/-- The first of the 53 bits of a mantissa. -/
def leadingBit : Nat := 0x10000000000000

/-- The magnitude of a finite number. -/
def Binary.ofFloat (x : Float) : Binary :=
  let bits : Nat := x.toBits.toNat % 0x8000000000000000
  let fraction : Nat := bits % leadingBit
  if bits < leadingBit then ⟨fraction, -1074⟩
  else ⟨leadingBit + fraction, ((bits / leadingBit : Nat) : Int) - 1075⟩

/-- A multiple of a power of ten. -/
structure Digits where
  value : Nat
  exponent : Int

/-- Which of two equally near decimals is taken. -/
inductive Tie where
  | even
  | up

/-- A quarter of a unit of the mantissa against a power of ten, both as whole numbers. -/
def scales (b : Binary) (t : Int) : Nat × Nat :=
  let q := b.exponent - 2
  (Nat.pow 2 q.toNat * Nat.pow 10 (-t).toNat, Nat.pow 2 (-q).toNat * Nat.pow 10 t.toNat)

/-- The multiple of the power of ten that lies nearest to the number among those that read back as
it, if there is one. A number at the end of the range of another one reads back as the one with the
even mantissa. -/
def onGrid? (tie : Tie) (b : Binary) (t : Int) : Option Nat :=
  let (quarter, unit) := scales b t
  let value := 4 * b.mantissa * quarter
  let below := if b.mantissa = leadingBit ∧ b.exponent ≠ -1074 then 1 else 2
  let low := (4 * b.mantissa - below) * quarter
  let high := (4 * b.mantissa + 2) * quarter
  let readsBack := fun n : Nat =>
    if b.mantissa % 2 = 0 then low ≤ n * unit ∧ n * unit ≤ high
    else low < n * unit ∧ n * unit < high
  let n := value / unit
  if readsBack n then
    if readsBack (n + 1) then
      let down := value - n * unit
      let rest := (n + 1) * unit - value
      let up := rest < down || (rest == down && match tie with
        | .even => n % 2 == 1
        | .up => true)
      some (if up then n + 1 else n)
    else
      some n
  else if readsBack (n + 1) then
    some (n + 1)
  else
    none

/-- Tries finer and finer powers of ten. -/
def search (tie : Tie) (b : Binary) : Nat → Int → Digits
  | 0, t => ⟨4 * b.mantissa * (scales b t).1 / (scales b t).2, t⟩
  | rounds + 1, t =>
    match onGrid? tie b t with
    | some n => ⟨n, t⟩
    | none => search tie b rounds (t - 1)

/-- Starts above the number and ends where seventeen digits are enough. -/
def shortest (tie : Tie) (b : Binary) : Digits :=
  if b.mantissa = 0 then
    ⟨0, 0⟩
  else
    search tie b 22 ((b.mantissa.log2 + b.exponent) * 30103 / 100000 + 2)

/-- How a number is written. -/
structure Style where
  tie : Tie
  /-- Which exponents of the first digit are written out in places before and after the point. -/
  inPlaces : Int → Bool
  /-- What follows a whole number. -/
  whole : String
  /-- What stands before a power of ten above zero. -/
  plus : String

def zeros (n : Nat) : List Char :=
  List.replicate n '0'

/-- The digits with as many places as the exponent says. -/
def positional (whole : String) (digits : List Char) (exponent : Int) : String :=
  if 0 ≤ exponent then
    String.ofList (digits ++ zeros exponent.toNat) ++ whole
  else
    let places := (-exponent).toNat
    let digits := zeros (places + 1 - digits.length) ++ digits
    let point := digits.length - places
    String.ofList (digits.take point ++ '.' :: digits.drop point)

/-- One digit before the point and the power of ten after the others. -/
def scientific (plus : String) (digits : List Char) (leading : Int) : String :=
  String.ofList (match digits with
    | [] => []
    | [d] => [d]
    | d :: ds => d :: '.' :: ds) ++ "e" ++ (if 0 < leading then plus else "") ++ toString leading

def Style.render (style : Style) (x : Float) : String :=
  let d := shortest style.tie (.ofFloat x)
  let digits := Nat.toDigits 10 d.value
  let leading := d.exponent + digits.length - 1
  (if x.toBits < 0x8000000000000000 then "" else "-") ++
    if style.inPlaces leading then positional style.whole digits d.exponent
    else scientific style.plus digits leading

end Chartboard.Decimal
