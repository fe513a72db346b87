import Mathlib
import LatentGrammar.LatentTree

namespace LatentGrammar

/-- An ordered field in which scores are computed without rounding. -/
class ExactScalar (α : Type) extends Field α, LinearOrder α, IsStrictOrderedRing α where
  /-- The multiplier of one scale unit. -/
  unit : α
  unit_pos : 0 < unit
  /-- By how many units a vector with a given largest entry is rescaled: by any number. -/
  steps : α → Int
  log : α → α
  floorNat : α → Nat
  ceilNat : α → Nat

namespace ExactScalar

variable {α : Type} [ExactScalar α]

/-- Every number is finite. -/
instance toScalar : Scalar α where
  zero := 0
  one := 1
  add x y := x + y
  sub x y := x - y
  mul x y := x * y
  div x y := x / y
  lt x y := x < y
  le x y := x ≤ y
  beq x y := decide (x = y)
  natCast n := n
  intCast n := n
  ofScientific := OfScientific.ofScientific
  decidableLT x y := inferInstanceAs (Decidable (x < y))
  decidableLE x y := inferInstanceAs (Decidable (x ≤ y))
  log := ExactScalar.log
  isFinite _ := true
  scaleFactor n := (ExactScalar.unit : α) ^ n
  scaleSteps := steps
  floorNat := floorNat
  ceilNat := ceilNat

/-- Rational numbers in scale units of two; vectors are kept near one. There are no logarithms. -/
instance : ExactScalar Rat :=
  { (inferInstance : Field Rat), (inferInstance : LinearOrder Rat),
    (inferInstance : IsStrictOrderedRing Rat) with
    unit := 2
    unit_pos := by decide
    steps := fun x => (Nat.log2 x.num.natAbs : Int) - Nat.log2 x.den
    log := fun _ => 0
    floorNat := fun x => x.floor.toNat
    ceilNat := fun x => x.ceil.toNat }

end ExactScalar

open Finset

theorem sum_range_mul {K : Type} [AddCommMonoid K] (rows columns : Nat) (f : Nat → K) :
    ∑ n ∈ range (rows * columns), f n =
      ∑ row ∈ range rows, ∑ column ∈ range columns, f (row * columns + column) := by
  induction rows with
  | zero => simp
  | succ rows ih => rw [Nat.succ_mul, sum_range_add, ih, sum_range_succ]

theorem foldl_zipIdx_eq_sum {K β : Type} [AddCommMonoid K] {items : List β}
    {step : K → β × Nat → K} (default : β) (f : β → Nat → K)
    (each : ∀ sum item n, step sum (item, n) = sum + f item n) (start : K) :
    items.zipIdx.foldl step start =
      start + ∑ n ∈ range items.length, f ((items[n]?).getD default) n := by
  have shifted (offset : Nat) : (items.zipIdx offset).foldl step start =
      start + ∑ n ∈ range items.length, f ((items[n]?).getD default) (offset + n) := by
    induction items generalizing start offset with
    | nil => simp
    | cons item rest ih =>
      rw [List.zipIdx_cons, List.foldl_cons, each, ih, List.length_cons, sum_range_succ']
      simp only [List.getElem?_cons_zero, List.getElem?_cons_succ, Option.getD_some, Nat.add_zero,
        Nat.add_right_comm, Nat.add_assoc]
      rw [add_assoc, add_comm (f item offset)]
  simpa using shifted 0

namespace ExactScalar

variable {α : Type} [ExactScalar α]

theorem beq_iff {x y : α} : (Scalar.toBEq.beq x y) = true ↔ x = y := decide_eq_true_iff

theorem scaleFactor_eq (n : Int) : (Scalar.scaleFactor n : α) = (unit : α) ^ n := rfl

theorem scaleFactor_pos (n : Int) : 0 < (Scalar.scaleFactor n : α) := zpow_pos unit_pos n

theorem scaleFactor_add (m n : Int) :
    (Scalar.scaleFactor (m + n) : α) = Scalar.scaleFactor m * Scalar.scaleFactor n :=
  zpow_add₀ unit_pos.ne' m n

theorem scaleFactor_sub (m n : Int) :
    (Scalar.scaleFactor (m - n) : α) = Scalar.scaleFactor m / Scalar.scaleFactor n :=
  zpow_sub₀ unit_pos.ne' m n

end ExactScalar

namespace ScaledVector

/-- The score of a substate that a vector stands for; zero beyond its end. -/
def score {α : Type} [Scalar α] (vector : ScaledVector α) (s : Nat) : α :=
  (vector.values[s]?).getD 0 * Scalar.scaleFactor vector.scale

variable {α : Type} [ExactScalar α]

/-- Rescaling moves magnitude into the exponent and changes no score. -/
theorem score_rescale (vector : ScaledVector α) (s : Nat) :
    vector.rescale.score s = vector.score s := by
  unfold rescale
  simp only
  split
  · rfl
  · split
    · rfl
    · generalize Scalar.scaleSteps (Scalar.largest vector.values) = steps
      simp only [score, List.getElem?_map]
      cases vector.values[s]? with
      | none => simp
      | some value =>
        have cancel : (Scalar.scaleFactor (-steps) : α) * Scalar.scaleFactor (vector.scale + steps)
            = Scalar.scaleFactor vector.scale := by
          rw [← ExactScalar.scaleFactor_add]
          congr 1
          omega
        simp only [Option.map_some, Option.getD_some]
        rw [mul_assoc, cancel]

end ScaledVector

end LatentGrammar
