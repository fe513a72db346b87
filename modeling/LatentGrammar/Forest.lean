import LatentGrammar.LatentTree

namespace LatentGrammar

structure Forest (α : Type) where
  trees : List (LatentTree α)
  substates : List Nat
  deriving Repr, BEq

namespace Forest

variable {α : Type}

def size (forest : Forest α) : Nat := forest.trees.length

def ofTrees [Scalar α] (trees : List Tree) (substates : List Nat) (vocabulary : Vocabulary) :
    Except Fault (Forest α) := do
  return ⟨← trees.mapM (LatentTree.ofTree substates vocabulary), substates⟩

def resize [Scalar α] (forest : Forest α) (substates : List Nat) : Except Fault (Forest α) := do
  return ⟨← forest.trees.mapM (LatentTree.resize substates), substates⟩

def increment (counts : List Nat) (state : Nat) : Except Fault (List Nat) := do
  return counts.set state ((← fetch counts state) + 1)

def categoryCounts (forest : Forest α) (size : Nat) : Except Fault (List Nat) :=
  ((forest.trees.flatMap LatentTree.subtrees).map LatentTree.state).foldlM increment
    (List.replicate size 0)

def mark (marks : List Bool) (state : Nat) : Except Fault (List Bool) := do
  let _ ← fetch marks state
  return marks.set state true

def lexicalCategories (forest : Forest α) (size : Nat) : Except Fault (List Bool) :=
  ((forest.trees.flatMap LatentTree.preterminals).map LatentTree.state).foldlM mark
    (List.replicate size false)

def frequency (words : List String) (word : String) : Nat := words.count word

/-- Replaces every word that occurs fewer than `threshold` times by what `f` makes of the word and
its position. -/
def replaceRare (f : String → Nat → String) (threshold : Nat) (forest : Forest α) : Forest α :=
  let words := forest.trees.flatMap LatentTree.words
  let replace (word : String) (position : Nat) : String :=
    if frequency words word < threshold then f word position else word
  { forest with trees := forest.trees.map (·.mapWords replace 0) }

/-- A pass over trees that has come to its end, or to a tree that could not be handled. -/
structure Sweep (α β : Type) where
  trees : List (LatentTree α)
  result : β
  fault : Option Fault

/-- Handles trees one after the other. A tree that cannot be handled ends the pass; it and the trees
behind it stay as they are. -/
def sweep {β : Type}
    (step : Nat → LatentTree α → β → Except Fault (LatentTree α × β)) :
    Nat → List (LatentTree α) → β → Sweep α β
  | _, [], result => ⟨[], result, none⟩
  | index, tree :: rest, result =>
    match step index tree result with
    | .error fault => ⟨tree :: rest, result, some fault⟩
    | .ok (tree, result) =>
      let rest := sweep step (index + 1) rest result
      { rest with trees := tree :: rest.trees }

end Forest

end LatentGrammar
