import LatentGrammar.Grammar.Basic
import LatentGrammar.Random

namespace LatentGrammar

variable {α : Type} [Scalar α]

/-- By how much the substates of one category multiply. The root is never split, and unless
`unbounded`, neither is a category that would have more substates than occurrences. -/
def growthFactor (root : Nat) (counts : List Nat) (unbounded : Bool) (size state : Nat) :
    Except Fault Nat := do
  if state == root then return 1
  if unbounded then return 2
  return if (counts[state]?).getD 0 < (← word (2 * size)) then 1 else 2

def growthFactors (substates : List Nat) (root : Nat) (counts : List Nat) (unbounded : Bool) :
    Except Fault (List Nat) :=
  substates.zipIdx.mapM fun (size, state) => growthFactor root counts unbounded size state

def multiply (substates factors : List Nat) : Except Fault (List Nat) :=
  (substates.zip factors).mapM fun (size, factor) => word (size * factor)

/-- Ancestries after a split; only categories with factor two were split. -/
def splitAncestries (ancestries : List Ancestry) (factors : List Nat) : List Ancestry :=
  (ancestries.zip factors).map fun (ancestry, factor) =>
    if factor == 2 then ancestry.split else ancestry.renumber

def perturbAll {γ : Type} [Draws γ α] (randomness : α) : List α → γ → List α × γ
  | [], stream => ([], stream)
  | value :: rest, stream =>
    let (factor, stream) := perturbation randomness stream
    let (rest, stream) := perturbAll randomness rest stream
    (value * factor :: rest, stream)

/-- The factors of a rule's categories; a unary rule has no right category. -/
def Production.growthFactors (key : Production) (factors : List Nat) :
    Except Fault (Nat × Nat × Nat) := do
  match key with
  | unary parent child => return (← fetch factors parent, ← fetch factors child, 1)
  | binary parent left right =>
    return (← fetch factors parent, ← fetch factors left, ← fetch factors right)

/-- The cells of a split rule before noise: a cell's share of its ancestor's probability. -/
def RuleBlock.splitCells (old : RuleBlock α) (factors dimensions : Nat × Nat × Nat) :
    Except Fault (List α) := do
  let (fp, fl, fr) := factors
  let (parents, lefts, rights) := dimensions
  if (← cellCount parents lefts rights) == 0 then return []
  let share : α := ((fl * fr : Nat) : α)
  let rows ← tabulate parents fun i => do
    let columns ← tabulate lefts fun j => tabulate rights fun k => do
      return (← old.get (i / fp) (j / fl) (k / fr)) / share
    return columns.flatten
  return rows.flatten

def RuleBlock.split {γ : Type} [Draws γ α] (old : RuleBlock α)
    (factors dimensions : Nat × Nat × Nat) (randomness : α) (stream : γ) :
    Except Fault (RuleBlock α × γ) := do
  let cells ← old.splitCells factors dimensions
  let (cells, stream) := perturbAll randomness cells stream
  let (parents, lefts, rights) := dimensions
  return (⟨parents, lefts, rights, cells.toArray⟩, stream)

def splitRules {γ : Type} [Draws γ α] (factors substates : List Nat) (randomness : α) :
    List (Production × RuleBlock α) → γ → Except Fault (List (Production × RuleBlock α) × γ)
  | [], stream => .ok ([], stream)
  | (key, old) :: rest, stream => do
    let (new, stream) ←
      old.split (← key.growthFactors factors) (← key.dimensions substates) randomness stream
    let (rest, stream) ← splitRules factors substates randomness rest stream
    return ((key, new) :: rest, stream)

/-- Doubles the substates of every category that may be split. The result is not normalized, and no
smoothing is installed in it. -/
def Grammar.split {γ : Type} [Draws γ α] (grammar : Grammar α) (randomness : α)
    (counts : List Nat) (unbounded : Bool) (stream : γ) : Except Fault (Grammar α × γ) := do
  let factors ← growthFactors grammar.substates grammar.root counts unbounded
  let substates ← multiply grammar.substates factors
  let (rules, stream) ← splitRules factors substates randomness grammar.rules.entries stream
  return ({
    substates
    root := grammar.root
    smoothing := .none
    threshold := grammar.threshold
    ancestry := splitAncestries grammar.ancestry factors
    rules := ⟨rules⟩ }, stream)

end LatentGrammar
