import LatentGrammar.Ancestry
import LatentGrammar.Scalar

namespace LatentGrammar

inductive Smoothing (α : Type) where
  | none
  /-- `(1 - strength)` of the own value and `strength` of the mean of the siblings' values. -/
  | acrossSiblings (strength : α)
  deriving Repr, BEq

namespace Smoothing

variable {α : Type} [Scalar α]

def ofStrength (strength : α) : Smoothing α := .acrossSiblings (Scalar.clamp strength 0 1)

def isActive : Smoothing α → Bool
  | .none => false
  | .acrossSiblings _ => true

def strength? : Smoothing α → Option α
  | .none => Option.none
  | .acrossSiblings strength => some strength

/-- A value mixed with the mean of the rest of its family; an only child keeps its value. -/
def mix (strength value : α) (family : List α) : α :=
  if family.length < 2 then value
  else
    let siblings := (Scalar.sum family - value) / ((family.length - 1 : Nat) : α)
    (1 - strength) * value + strength * siblings

/-- Smooths one value per substate. Values that the ancestry does not match are left alone. -/
def smooth (smoothing : Smoothing α) (ancestry : Ancestry) (values : List α) : List α :=
  match smoothing with
  | .none => values
  | .acrossSiblings strength =>
    if ancestry.size == values.length then
      let entries := ancestry.parents.zip values
      entries.map fun (parent, value) =>
        mix strength value ((entries.filter (·.1 == parent)).map (·.2))
    else values

end Smoothing

end LatentGrammar
