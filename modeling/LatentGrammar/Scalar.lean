/-! The arithmetic that scores are computed in. Everything that scores, counts and re-estimates is
written over an arbitrary `Scalar`, with the order of its operations fixed; programs run in double
precision, and statements about exact numbers are about another instance. -/

namespace LatentGrammar

/-- Numbers with the field operations, a decidable order, logarithms, and a unit in which very large
and very small scores are stored. Nothing is assumed of the operations. -/
class Scalar (α : Type) extends
    Zero α, One α, Add α, Sub α, Mul α, Div α, LT α, LE α, BEq α, NatCast α, IntCast α,
    OfScientific α where
  decidableLT : DecidableLT α
  decidableLE : DecidableLE α
  log : α → α
  isFinite : α → Bool
  /-- The multiplier that stands for a number of scale units. -/
  scaleFactor : Int → α
  /-- The number of whole scale units in a positive finite number. -/
  scaleSteps : α → Int
  floorNat : α → Nat
  ceilNat : α → Nat

attribute [reducible, instance] Scalar.decidableLT Scalar.decidableLE

namespace Scalar

variable {α : Type} [Scalar α]

def sum (values : List α) : α := values.foldl (· + ·) 0

def largest (values : List α) : α := values.foldl (fun m v => if m < v then v else m) 0

/-- The nearest point of an interval; what compares with neither end stays. -/
def clamp (value low high : α) : α :=
  if value < low then low else if high < value then high else value

def addInto : List α → List α → List α
  | [], _ => []
  | total :: totals, [] => total :: totals
  | total :: totals, value :: values => (total + value) :: addInto totals values

end Scalar

def scaleUnit : Nat := 100

private def floatOfInt (n : Int) : Float :=
  if n.natAbs < 0x20000000000000 then Float.ofInt n
  else
    let magnitude := Float.ofScientific n.natAbs false 0
    if n < 0 then -magnitude else magnitude

/-- A float without its fraction; meant for numbers of a few digits. -/
private def truncate (x : Float) : Int :=
  if x < 0 then -((-x).toUInt64.toNat : Int) else x.toUInt64.toNat

instance : Scalar Float where
  zero := 0.0
  one := 1.0
  add x y := x + y
  sub x y := x - y
  mul x y := x * y
  div x y := x / y
  lt x y := x < y
  le x y := x ≤ y
  beq x y := x == y
  natCast n := floatOfInt n
  intCast n := floatOfInt n
  ofScientific := OfScientific.ofScientific
  decidableLT x y := inferInstanceAs (Decidable (x < y))
  decidableLE x y := inferInstanceAs (Decidable (x ≤ y))
  log x := x.log
  isFinite x := x.isFinite
  scaleFactor n := (floatOfInt n * 100.0).exp
  scaleSteps x := truncate (x.log / 100.0)
  -- a word has no room for the fraction
  floorNat x := x.toUInt64.toNat
  ceilNat x := x.ceil.toUInt64.toNat

end LatentGrammar
