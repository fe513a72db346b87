import LatentGrammar.Checkpoint.Basic
import LatentGrammar.Training.Config
import LatentGrammar.Treebank.Selection

namespace LatentGrammar.Training

inductive Activity where
  | readingTraining (path : String)
  | readingValidation (path : String)
  | readingTreebank (path : String)
  | loadingCheckpoint (path : String)
  | annotatingTraining
  | annotatingValidation
  | annotatingTreebank
  deriving Repr, DecidableEq

def Activity.describe : Activity → String
  | readingTraining path => "reading training treebank " ++ path
  | readingValidation path => "reading validation treebank " ++ path
  | readingTreebank path => "reading treebank " ++ path
  | loadingCheckpoint path => "loading checkpoint " ++ path
  | annotatingTraining => "annotating training trees"
  | annotatingValidation => "annotating validation trees"
  | annotatingTreebank => "treebank uses categories the grammar has never seen"

inductive FileFault where
  | unreadable
  /-- What has been opened holds no checkpoint. -/
  | undecodable
  deriving Repr, DecidableEq

inductive RunFault (α : Type) where
  | config (fault : ConfigFault α)
  | emptyTreebank (path : String)
  | file (fault : FileFault)
  /-- The root category occurs nowhere. -/
  | rootless (label : String)
  | model (fault : Fault)
  | during (activity : Activity) (fault : RunFault α)
  deriving Repr

namespace RunFault

variable {α : Type}

def message (number : α → String) : RunFault α → String
  | config fault => "invalid configuration: " ++ fault.message number
  | emptyTreebank path => "empty treebank: " ++ path
  | file .unreadable => "the file cannot be read"
  | file .undecodable => "the file is no checkpoint"
  | rootless label => "no tree is rooted in " ++ label
  | model fault => fault.message
  | during activity fault => activity.describe ++ ": " ++ fault.message number

def cause : RunFault α → RunFault α
  | during _ fault => fault.cause
  | fault => fault

end RunFault

/-- Puts the activity on top of a fault. -/
def within {α β : Type} (activity : Activity) (result : Except (RunFault α) β) :
    Except (RunFault α) β :=
  result.mapError (.during activity)

def lift {α β : Type} (result : Except Fault β) : Except (RunFault α) β := result.mapError .model

structure Sources (α : Type) where
  text : String → Except FileFault String
  checkpoint : String → Except FileFault (Checkpoint α)

structure Corpus where
  train : List Tree
  validation : List Tree
  deriving Repr

namespace Corpus

variable {α : Type} [Scalar α]

/-- Binarizes trees as the settings say; held-out trees may be trained on, too. -/
def ofTrees (config : Config α) (train validation : List Tree) : Corpus :=
  let binarize :=
    List.map (Treebank.binarize config.vertical config.horizontal config.binarization)
  let validation := binarize validation
  ⟨if config.trainOnDev then binarize train ++ validation else binarize train, validation⟩

def readTreebank (sources : Sources α) (options : Treebank.Options α) (path : String) :
    Except (RunFault α) (List Tree) := do
  let text ← (sources.text path).mapError .file
  lift (Treebank.load options text)

def load (sources : Sources α) (config : Config α) : Except (RunFault α) Corpus := do
  let some trainPath := config.trainPath | throw (.config .noTreebank)
  let options := config.treebankOptions
  let train ← within (.readingTraining trainPath) (readTreebank sources options trainPath)
  if train.isEmpty then throw (.emptyTreebank trainPath)
  let validation ← match config.validationPath with
    | none => pure train
    | some path =>
      within (.readingValidation path) (readTreebank sources { options with fraction := 1 } path)
  return ofTrees config train validation

end Corpus

end LatentGrammar.Training
