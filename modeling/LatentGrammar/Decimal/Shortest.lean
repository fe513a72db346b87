import LatentGrammar.Decimal.Places

namespace LatentGrammar.Decimal

/-- The numbers that round to `mantissa * 2 ^ exponent`, in quarters of its last place: their bounds
and whether the bounds belong to them. The gap below a power of two is half as wide. -/
structure Neighbourhood where
  low : Nat
  high : Nat
  closed : Bool

def neighbourhood (mantissa : Nat) (exponent : Int) : Neighbourhood where
  low := if mantissa == twoTo 52 && exponent > -1074 then 4 * mantissa - 1 else 4 * mantissa - 2
  high := 4 * mantissa + 2
  closed := mantissa % 2 == 0

/-- The decimal of the grid `10 ^ step` that is nearest to the double among those that round to it;
of two that are equally near, the greater. -/
def onGrid? (mantissa : Nat) (exponent step : Int) : Option Nat :=
  let bounds := neighbourhood mantissa exponent
  let up := twoTo (exponent - 2).toNat * tenTo (-step).toNat
  let unit := twoTo (2 - exponent).toNat * tenTo step.toNat
  let value := 4 * mantissa * up
  let within (n : Nat) : Bool :=
    let scaled := n * unit
    if bounds.closed then bounds.low * up ≤ scaled && scaled ≤ bounds.high * up
    else bounds.low * up < scaled && scaled < bounds.high * up
  let below := value / unit
  let above := below + 1
  let distanceBelow := value - below * unit
  let distanceAbove := above * unit - value
  if within below && (!within above || distanceBelow < distanceAbove) then some below
  else if within above then some above
  else none

def search (mantissa : Nat) (exponent power : Int) : Nat → Nat → Nat × Int
  | _, 0 => (mantissa, exponent)
  | count, tries + 1 =>
    let step := power - count
    match onGrid? mantissa exponent step with
    | some n => (n, step)
    | none => search mantissa exponent power (count + 1) tries

/-- Digits and power of ten of the shortest decimal that reads back as a positive double. Seventeen
digits always suffice. -/
def shortest (mantissa : Nat) (exponent : Int) : Nat × Int :=
  search mantissa exponent
    (magnitude (numerator mantissa exponent) (denominator exponent)) 0 18

def positional (digits : Nat) (step : Int) : String :=
  if 0 ≤ step then toString (digits * tenTo step.toNat)
  else
    let text := (point (-step).toNat digits).toList
    let trimmed := (text.reverse.dropWhile (· == '0')).dropWhile (· == '.')
    String.ofList trimmed.reverse

def plain (x : Float) : String :=
  match Binary.ofFloat x with
  | .notANumber => "NaN"
  | .infinite negative => if negative then "-inf" else "inf"
  | .finite negative mantissa exponent =>
    let text :=
      if mantissa == 0 then "0"
      else
        let (digits, step) := shortest mantissa exponent
        positional digits step
    if negative then "-" ++ text else text

/-- The double nearest to `digits * 10 ^ step`. Powers far outside the range of doubles are not
computed. -/
def toFloat (negative : Bool) (digits : Nat) (step : Int) : Float :=
  let size := step + (toString digits).length
  let magnitude :=
    if digits == 0 || size < -400 then 0.0
    else if 400 < size then 1.0 / 0.0
    else if 0 ≤ step then Float.ofScientific digits false step.toNat
    else Float.ofScientific digits true (-step).toNat
  if negative then -magnitude else magnitude

def readMagnitude? (text : List Char) : Option (Nat × Int) := do
  let number (digits : List Char) : Nat := digits.foldl (fun n c => 10 * n + (c.toNat - 48)) 0
  let whole := text.takeWhile Char.isDigit
  let rest := text.dropWhile Char.isDigit
  let (fraction, rest) := match rest with
    | '.' :: rest => (rest.takeWhile Char.isDigit, rest.dropWhile Char.isDigit)
    | _ => ([], rest)
  if whole.isEmpty && fraction.isEmpty then none
  let power : Int ← match rest with
    | [] => some 0
    | e :: rest =>
      if e != 'e' && e != 'E' then none
      else
        let (negative, digits) := match rest with
          | '-' :: digits => (true, digits)
          | '+' :: digits => (false, digits)
          | digits => (false, digits)
        if digits.isEmpty || !digits.all Char.isDigit then none
        else some (if negative then -(number digits : Int) else number digits)
  some (number (whole ++ fraction), power - fraction.length)

/-- Reads a decimal number, or one of the names of infinity and of no number in any case, with an
optional sign. -/
def read? (text : String) : Option Float :=
  let (negative, digits) := match text.toList with
    | '-' :: digits => (true, digits)
    | '+' :: digits => (false, digits)
    | digits => (false, digits)
  let name := String.ofList (digits.map Char.toLower)
  if name == "inf" || name == "infinity" then
    some (if negative then -(1.0 / 0.0) else 1.0 / 0.0)
  else if name == "nan" then some (0.0 / 0.0)
  else do
    let (n, step) ← readMagnitude? digits
    some (toFloat negative n step)

end LatentGrammar.Decimal
