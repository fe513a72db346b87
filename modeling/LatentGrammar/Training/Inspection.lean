import LatentGrammar.Training.Corpus
import LatentGrammar.Training.Expectation

namespace LatentGrammar.Training

variable {α : Type} [Scalar α]

structure CategoryReport where
  id : Nat
  label : String
  substates : Nat
  deriving Repr

structure TreebankReport (α : Type) where
  path : String
  trees : Nat
  outcome : Outcome α
  deriving Repr

structure Inspection (α : Type) where
  checkpoint : String
  categories : List CategoryReport
  substateTotal : Nat
  rules : Nat
  smoothing : Option α
  vertical : Nat
  horizontal : Nat
  treebank : Option (TreebankReport α)
  deriving Repr

namespace Inspection

def reportTreebank (sources : Sources α) (checkpoint : Checkpoint α) (path : String) :
    Except (RunFault α) (TreebankReport α) := do
  let vocabulary := checkpoint.vocabulary.indexed
  let options : Treebank.Options α :=
    { Treebank.Options.standard with root := vocabulary.rootLabel }
  let trees ← within (.readingTreebank path) (Corpus.readTreebank sources options path)
  let trees := trees.map
    (Treebank.binarize checkpoint.vertical checkpoint.horizontal checkpoint.binarization)
  let forest ← within .annotatingTreebank
    (lift (Forest.ofTrees trees checkpoint.substates vocabulary))
  return ⟨path, trees.length, ← lift (evaluate checkpoint.model forest).2⟩

/-- The summary of a checkpoint file, and of a treebank under it if one is named. -/
def ofFile (sources : Sources α) (path : String) (treebank : Option String) :
    Except (RunFault α) (Inspection α) := do
  let checkpoint ← within (.loadingCheckpoint path) ((sources.checkpoint path).mapError .file)
  let treebank ← treebank.mapM (reportTreebank sources checkpoint)
  return {
    checkpoint := path
    categories := checkpoint.vocabulary.labels.zipIdx.map fun (label, id) =>
      ⟨id, label, (checkpoint.substates[id]?).getD 0⟩
    substateTotal := ← lift checkpoint.model.grammar.substateTotal
    rules := checkpoint.model.grammar.rules.size
    smoothing := checkpoint.model.grammar.smoothing.strength?
    vertical := checkpoint.vertical
    horizontal := checkpoint.horizontal
    treebank }

def mapPaths (f : String → String) (inspection : Inspection α) : Inspection α :=
  { inspection with
    checkpoint := f inspection.checkpoint
    treebank := inspection.treebank.map fun report => { report with path := f report.path } }

end Inspection

end LatentGrammar.Training
