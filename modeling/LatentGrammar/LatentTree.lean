import LatentGrammar.Capacity
import LatentGrammar.Scalar
import LatentGrammar.Tree
import LatentGrammar.Vocabulary

namespace LatentGrammar

/-- A vector of scores; its entries are to be multiplied by `exp (100 * scale)`. -/
structure ScaledVector (α : Type) where
  values : List α
  scale : Int
  deriving Repr, BEq

namespace ScaledVector

variable {α : Type} [Scalar α]

def zeros (size : Nat) : Except Fault (ScaledVector α) := do return ⟨← fill size 0, 0⟩

/-- Keeps the largest entry within one scale unit of one; the difference goes into the exponent. -/
def rescale (vector : ScaledVector α) : ScaledVector α :=
  let largest := Scalar.largest vector.values
  if largest == 0 || !Scalar.isFinite largest then vector
  else
    let steps := Scalar.scaleSteps largest
    if steps == 0 then vector
    else
      let factor : α := Scalar.scaleFactor (-steps)
      ⟨vector.values.map (· * factor), vector.scale + steps⟩

end ScaledVector

structure NodeScores (α : Type) where
  inside : ScaledVector α
  outside : ScaledVector α
  deriving Repr, BEq

def NodeScores.zeros {α : Type} [Scalar α] (size : Nat) : Except Fault (NodeScores α) := do
  let vector ← ScaledVector.zeros size
  return ⟨vector, vector⟩

inductive LatentTree (α : Type) where
  | preterminal (state : Nat) (word : String) (scores : NodeScores α)
  | unary (state : Nat) (scores : NodeScores α) (child : LatentTree α)
  | binary (state : Nat) (scores : NodeScores α) (left right : LatentTree α)
  deriving Repr, BEq

namespace LatentTree

variable {α : Type}

def state : LatentTree α → Nat
  | preterminal state .. => state
  | unary state .. => state
  | binary state .. => state

def scores : LatentTree α → NodeScores α
  | preterminal _ _ scores => scores
  | unary _ scores _ => scores
  | binary _ scores _ _ => scores

def inside (tree : LatentTree α) : ScaledVector α := tree.scores.inside

def outside (tree : LatentTree α) : ScaledVector α := tree.scores.outside

def substates (tree : LatentTree α) : Nat := tree.inside.values.length

def subtrees : LatentTree α → List (LatentTree α)
  | tree@(preterminal ..) => [tree]
  | tree@(unary _ _ child) => tree :: child.subtrees
  | tree@(binary _ _ left right) => tree :: (left.subtrees ++ right.subtrees)

def size : LatentTree α → Nat
  | preterminal .. => 1
  | unary _ _ child => child.size + 1
  | binary _ _ left right => left.size + right.size + 1

def words : LatentTree α → List String
  | preterminal _ word _ => [word]
  | unary _ _ child => child.words
  | binary _ _ left right => left.words ++ right.words

def wordCount : LatentTree α → Nat
  | preterminal .. => 1
  | unary _ _ child => child.wordCount
  | binary _ _ left right => left.wordCount + right.wordCount

def preterminals : LatentTree α → List (LatentTree α)
  | tree@(preterminal ..) => [tree]
  | unary _ _ child => child.preterminals
  | binary _ _ left right => left.preterminals ++ right.preterminals

/-- One node of a tree that is laid out as a table: its children by their positions. -/
structure Node (α : Type) where
  state : Nat
  word : Option String
  children : List Nat
  scores : NodeScores α
  deriving Repr, BEq

/-- The table of nodes, each before those inside it, from position `start` on. -/
def nodesFrom (start : Nat) : LatentTree α → List (Node α)
  | preterminal state word scores => [⟨state, some word, [], scores⟩]
  | unary state scores child => ⟨state, none, [start + 1], scores⟩ :: child.nodesFrom (start + 1)
  | binary state scores left right =>
    ⟨state, none, [start + 1, start + 1 + left.size], scores⟩
      :: (left.nodesFrom (start + 1) ++ right.nodesFrom (start + 1 + left.size))

def nodes (tree : LatentTree α) : List (Node α) := tree.nodesFrom 0

def countOf (substates : List Nat) (state : Nat) (label : String) : Except Fault Nat :=
  match substates[state]? with
  | some count => .ok count
  | none => .error (.malformedTree (.uncounted label))

def ofTree [Scalar α] (substates : List Nat) (vocabulary : Vocabulary) :
    Tree → Except Fault (LatentTree α)
  | .node label children => do
    let state ← vocabulary.id label
    let count ← countOf substates state label
    match children with
    | [.node word []] => return .preterminal state word (← NodeScores.zeros count)
    | [child] =>
      return .unary state (← NodeScores.zeros count) (← ofTree substates vocabulary child)
    | [left, right] =>
      if left.isLeaf || right.isLeaf then throw (.malformedTree (.mixed label))
      return .binary state (← NodeScores.zeros count) (← ofTree substates vocabulary left)
        (← ofTree substates vocabulary right)
    | children => throw (.malformedTree (.notBinary label children.length))

def resize [Scalar α] (substates : List Nat) : LatentTree α → Except Fault (LatentTree α)
  | preterminal state word _ => do
    return .preterminal state word (← NodeScores.zeros (← fetch substates state))
  | unary state _ child => do
    return .unary state (← NodeScores.zeros (← fetch substates state)) (← child.resize substates)
  | binary state _ left right => do
    return .binary state (← NodeScores.zeros (← fetch substates state)) (← left.resize substates)
      (← right.resize substates)

/-- Replaces every word by a function of the word and its position in the sentence, which starts at
`position`. -/
def mapWords (f : String → Nat → String) (position : Nat) : LatentTree α → LatentTree α
  | preterminal state word scores => .preterminal state (f word position) scores
  | unary state scores child => .unary state scores (child.mapWords f position)
  | binary state scores left right =>
    .binary state scores (left.mapWords f position)
      (right.mapWords f (position + left.wordCount))

/-- The inside score of the first substate at the top. -/
def mass (tree : LatentTree α) : Except Fault α := fetch tree.inside.values 0

def hasLikelihood [Scalar α] (mass : α) : Bool := 0 < mass && Scalar.isFinite mass

end LatentTree

end LatentGrammar
