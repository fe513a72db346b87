import LatentGrammar.Grammar.Split
import LatentGrammar.Lexicon.Split

namespace LatentGrammar

structure Model (α : Type) where
  grammar : Grammar α
  lexicon : Lexicon α
  deriving Repr

namespace Model

variable {α : Type}

def substates (model : Model α) : List Nat := model.grammar.substates

def same [Scalar α] (a b : Model α) : Bool :=
  a.grammar == b.grammar && a.lexicon.same b.lexicon

/-- Doubles the substates in grammar and lexicon, with percents of noise for each of them. -/
def split {γ : Type} [Scalar α] [Draws γ α] (model : Model α) (grammarNoise lexiconNoise : α)
    (counts : List Nat) (unbounded : Bool) (stream : γ) : Except Fault (Model α × γ) := do
  let (grammar, stream) ← model.grammar.split grammarNoise counts unbounded stream
  let (lexicon, stream) ← model.lexicon.split lexiconNoise counts unbounded stream
  return (⟨grammar, lexicon⟩, stream)

def withSmoothing (model : Model α) (grammar lexicon : Smoothing α) : Model α :=
  ⟨model.grammar.withSmoothing grammar, model.lexicon.withSmoothing lexicon⟩

end Model

end LatentGrammar
