namespace LatentGrammar.Decimal

def twoTo (power : Nat) : Nat := Nat.pow 2 power

def tenTo (power : Nat) : Nat := Nat.pow 10 power

/-- What the bits of a double stand for; a finite one is `mantissa * 2 ^ exponent` up to its
sign. -/
inductive Binary where
  | notANumber
  | infinite (negative : Bool)
  | finite (negative : Bool) (mantissa : Nat) (exponent : Int)
  deriving Repr, DecidableEq

/-- Decodes a double; exponents below the least one are written with a short mantissa. -/
def Binary.ofFloat (x : Float) : Binary :=
  let bits : Nat := x.toBits.toNat
  let negative := bits / twoTo 63 == 1
  let biased : Nat := bits / twoTo 52 % twoTo 11
  let fraction : Nat := bits % twoTo 52
  if biased == 2047 then
    if fraction == 0 then .infinite negative else .notANumber
  else if biased == 0 then .finite negative fraction (-1074)
  else .finite negative (twoTo 52 + fraction) ((biased : Int) - 1075)

def numerator (mantissa : Nat) (exponent : Int) : Nat := mantissa * twoTo exponent.toNat

def denominator (exponent : Int) : Nat := twoTo (-exponent).toNat

/-- The natural nearest to a quotient, a tie going to the even one. -/
def roundDiv (num den : Nat) : Nat :=
  let quotient := num / den
  let twice := 2 * (num % den)
  if twice < den then quotient
  else if den < twice then quotient + 1
  else quotient + quotient % 2

def reaches (num den : Nat) (power : Int) : Bool :=
  den * tenTo power.toNat ≤ num * tenTo (-power).toNat

/-- The power of ten at or below a positive quotient. The lengths of both numbers in binary leave
three candidates. -/
def magnitude (num den : Nat) : Int :=
  let guess := ((num.log2 : Int) - den.log2) * 30103 / 100000
  if reaches num den (guess + 1) then guess + 1
  else if reaches num den guess then guess
  else guess - 1

end LatentGrammar.Decimal
