import LatentGrammar.Scalar
import LatentGrammar.Treebank.Reader

namespace LatentGrammar.Treebank

def defaultRoot : String := "ROOT"

structure Options (α : Type) where
  root : String
  maxLength : Nat
  /-- The leading fraction of the trees that is kept. -/
  fraction : α
  lowercase : Bool
  keepFunctions : Bool

variable {α : Type} [Scalar α]

def Options.standard : Options α where
  root := defaultRoot
  maxLength := 10000
  fraction := 1
  lowercase := false
  keepFunctions := false

/-- The number of leading trees, rounded up, that a fraction of them is. -/
def keepCount (fraction : α) (size : Nat) : Nat :=
  Scalar.ceilNat ((size : α) * Scalar.clamp fraction 0 1)

def select (options : Options α) (trees : List Tree) : List Tree :=
  let kept := (trees.take (keepCount options.fraction trees.length)).filter fun tree =>
    tree.words.length ≤ options.maxLength
  if options.lowercase then kept.map Tree.lowerWords else kept

def load (options : Options α) (text : String) : Except Fault (List Tree) :=
  (read options.root text options.keepFunctions).map (select options)

end LatentGrammar.Treebank
