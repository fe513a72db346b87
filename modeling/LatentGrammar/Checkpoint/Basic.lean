import LatentGrammar.Model
import LatentGrammar.Treebank.Binarization
import LatentGrammar.Vocabulary

namespace LatentGrammar

structure Checkpoint (α : Type) where
  model : Model α
  vocabulary : Vocabulary
  substates : List Nat
  vertical : Nat
  horizontal : Nat
  binarization : Treebank.Direction
  deriving Repr

def Checkpoint.same {α : Type} [Scalar α] (a b : Checkpoint α) : Bool :=
  a.model.same b.model && a.vocabulary == b.vocabulary && a.substates == b.substates
    && a.vertical == b.vertical && a.horizontal == b.horizontal
    && a.binarization == b.binarization

end LatentGrammar
