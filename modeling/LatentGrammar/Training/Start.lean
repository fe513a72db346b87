import LatentGrammar.Grammar.Count
import LatentGrammar.Lexicon.Count
import LatentGrammar.Model
import LatentGrammar.Forest

namespace LatentGrammar.Training

def numberCategories (vocabulary : Vocabulary) (trees : List Tree) : Vocabulary :=
  (vocabulary.internAll (trees.flatMap Tree.tags)).internAll (trees.flatMap Tree.categories)

def initialSubstates (vocabulary : Vocabulary) (count : Nat) : List Nat :=
  (List.range vocabulary.size).map fun state =>
    if some state == vocabulary.root? then 1 else count

/-- Categories and substates for training and held-out trees. The baseline has no more than one
substate. -/
def categoriesOf (vocabulary : Vocabulary) (count : Nat) (baseline : Bool)
    (train validation : List Tree) : Vocabulary × List Nat :=
  let vocabulary := numberCategories vocabulary (train ++ validation)
  (vocabulary, initialSubstates vocabulary (if baseline then 1 else count))

variable {α γ : Type} [Scalar α] [Draws γ α]

structure FirstModelSettings (α : Type) where
  root : Nat
  lexicon : LexiconSettings α
  filter : α
  randomness : α
  rare : α

/-- Adds the emissions of trees that have not been scored; `active` tells from the number of a tree
whether it counts towards the unseen statistics. -/
def countAllUnscored (active : Nat → Bool) (rare randomness : α) (reference : Option (Lexicon α)) :
    Nat → List (LatentTree α) → EmissionCounts α → γ → Except Fault (EmissionCounts α × γ)
  | _, [], counts, stream => .ok (counts, stream)
  | index, tree :: rest, counts, stream => do
    let (counts, stream) ←
      counts.countUnscored ⟨active index, rare⟩ randomness reference tree stream
    countAllUnscored active rare randomness reference (index + 1) rest counts stream

/-- A first model. A scratch lexicon, trained on equal substate weights with noise, weights the
substates of the real one, and the grammar counts every rule once for all of its cells. Only the
scratch lexicon takes its unseen statistics from the second half of the trees alone. -/
def firstModel (forest : Forest α) (settings : FirstModelSettings α) (stream : γ) :
    Except Fault (Model α × γ) := do
  let empty ← EmissionCounts.start forest.substates settings.root settings.lexicon
  let (scratch, stream) ← countAllUnscored (inLaterHalf α · forest.size) settings.rare
    settings.randomness none 0 forest.trees empty stream
  let (emissions, stream) ← countAllUnscored (fun _ => true) settings.rare settings.randomness
    (some scratch.estimate) 0 forest.trees empty stream
  let rules ← RuleCounts.start forest.substates settings.root settings.filter
  let rules ← forest.trees.foldlM RuleCounts.countEvenly rules
  let emissions ← emissions.tieRare settings.rare
  let (grammar, stream) ← rules.estimate settings.randomness stream
  return (⟨grammar, emissions.estimate⟩, stream)

end LatentGrammar.Training
