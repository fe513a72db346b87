import LatentGrammar.Decimal.Binary

namespace LatentGrammar.Decimal

/-- Digits, the point still to be placed, and the power of ten of the first of them. -/
structure Significand where
  digits : Nat
  power : Int
  deriving Repr, DecidableEq

def significand (count num den : Nat) : Significand :=
  let power := magnitude num den
  let shift := (count : Int) - 1 - power
  let digits := roundDiv (num * tenTo shift.toNat) (den * tenTo (-shift).toNat)
  if digits < tenTo count then ⟨digits, power⟩ else ⟨tenTo (count - 1), power + 1⟩

def dropTrailingZeros (digits : List Char) : List Char :=
  (digits.reverse.dropWhile (· == '0')).reverse

def sign (negative : Bool) : String := if negative then "-" else ""

/-- Scientific notation without the zeros that end its mantissa: `1.2e1`, `5e-1`. -/
def Significand.scientific (s : Significand) : String :=
  let digits := (toString s.digits).toList
  let rest := dropTrailingZeros (digits.drop 1)
  let mantissa := if rest.isEmpty then digits.take 1 else digits.take 1 ++ '.' :: rest
  String.ofList mantissa ++ "e" ++ toString s.power

/-- A double in scientific notation with at most `count` significant digits. Zero has no sign. -/
def scientific (count : Nat) (x : Float) : String :=
  match Binary.ofFloat x with
  | .notANumber => "NaN"
  | .infinite negative => sign negative ++ "inf"
  | .finite _ 0 _ => "0"
  | .finite negative mantissa exponent =>
    sign negative
      ++ (significand count (numerator mantissa exponent) (denominator exponent)).scientific

def point (places n : Nat) : String :=
  let digits := toString (n % tenTo places)
  let padding := String.ofList (List.replicate (places - digits.length) '0')
  toString (n / tenTo places) ++ "." ++ padding ++ digits

/-- A double with a fixed number of places; the flag keeps the sign of what rounds to zero. -/
def places (count : Nat) (signedZero : Bool) (x : Float) : String :=
  match Binary.ofFloat x with
  | .notANumber => "NaN"
  | .infinite negative => sign negative ++ "inf"
  | .finite negative mantissa exponent =>
    let n := roundDiv (numerator mantissa exponent * tenTo count) (denominator exponent)
    sign (negative && (signedZero || n != 0)) ++ point count n

end LatentGrammar.Decimal
