import LatentGrammar.Capacity

namespace LatentGrammar

/-- The substate of the previous generation that each substate comes from. A substate that no old
one was merged into has no parent. -/
structure Ancestry where
  parents : List (Option Nat)
  deriving Repr, DecidableEq

namespace Ancestry

def uniform (count : Nat) : Except Fault Ancestry := do return ⟨← fill count (some 0)⟩

def size (ancestry : Ancestry) : Nat := ancestry.parents.length

def parent (ancestry : Ancestry) (substate : Nat) : Except Fault (Option Nat) :=
  fetch ancestry.parents substate

def split (ancestry : Ancestry) : Ancestry :=
  ⟨(List.range (ancestry.size * 2)).map fun substate => some (substate / 2)⟩

/-- The category was left unsplit while others doubled: every substate is an only child. -/
def renumber (ancestry : Ancestry) : Ancestry := ⟨(List.range ancestry.size).map some⟩

/-- Gives a merged substate the parent of the first old substate that goes into it. -/
def adopt (parents : List (Option Nat)) (merged : List (Option Nat)) (entry : Nat × Nat) :
    Except Fault (List (Option Nat)) := do
  let (new, old) := entry
  match ← fetch merged new with
  | some _ => return merged
  | none => return merged.set new (← fetch parents old)

/-- Substates have been merged: `mapping` sends every old one to one of `count` new ones. -/
def merge (ancestry : Ancestry) (mapping : List Nat) (count : Nat) : Except Fault Ancestry := do
  return ⟨← mapping.zipIdx.foldlM (adopt ancestry.parents) (← fill count none)⟩

def family (ancestry : Ancestry) (parent : Option Nat) : List Nat :=
  (ancestry.parents.zipIdx.filter (·.1 == parent)).map (·.2)

def groups (ancestry : Ancestry) : List (List Nat) :=
  ancestry.parents.eraseDups.map ancestry.family

/-- Neighbours in a list taken two by two; the last one of an odd number stays alone. -/
def pairUp : List Nat → List (Nat × Nat)
  | first :: second :: rest => (first, second) :: pairUp rest
  | _ => []

def pairs (ancestry : Ancestry) : List (Nat × Nat) := ancestry.groups.flatMap pairUp

end Ancestry

end LatentGrammar
