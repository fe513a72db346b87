import LatentGrammar.Lexicon.Basic
import LatentGrammar.Treebank.Binarization
import LatentGrammar.Treebank.Selection
import LatentGrammar.Training.InnerLoop

namespace LatentGrammar.Training

inductive SmoothingPolicy where
  | acrossSiblings
  | none
  deriving Repr, DecidableEq

structure Config (α : Type) where
  output : Option String
  trainPath : Option String
  /-- Held-out trees; the training trees serve as such when there are none. -/
  validationPath : Option String
  resume : Option String
  rounds : Nat
  /-- The share of candidate pairs that is merged; zero turns merging off. -/
  mergePercentage : α
  separateMergeThreshold : Bool
  splitMaxIterations : Nat
  splitMinIterations : Nat
  mergeMaxIterations : Nat
  mergeMinIterations : Nat
  /-- Both the least and the greatest number of iterations of smoothing phases. -/
  smoothMaxIterations : Nat
  patience : Nat
  smoothing : SmoothingPolicy
  substates : Nat
  vertical : Nat
  horizontal : Nat
  binarization : Treebank.Direction
  seed : Nat
  /-- Percent of noise in splits and in the starting model. -/
  randomization : α
  filter : α
  /-- Words seen fewer times stand in for unknown words. -/
  rareWordThreshold : Nat
  /-- Words seen more often are not smoothed by their signatures. -/
  reallyRareThreshold : Nat
  wordSmoothing : α
  signatureSmoothing : α
  lexicon : Estimator
  maxSentenceLength : Nat
  trainFraction : α
  /-- Train on the held-out trees too. -/
  trainOnDev : Bool
  lowercase : Bool
  keepFunctionLabels : Bool
  baseline : Bool
  noSplit : Bool
  allowMoreSubstatesThanCounts : Bool
  deriving Repr, BEq

inductive ConfigFault (α : Type) where
  | noOutput
  | noTreebank
  | mergePercentage (value : α)
  | trainFraction (value : α)
  | noSubstates
  | noVertical
  | negativeRandomization (value : α)
  deriving Repr

def ConfigFault.message {α : Type} (number : α → String) : ConfigFault α → String
  | noOutput => "an output path is required"
  | noTreebank => "a training treebank is required"
  | mergePercentage value => "merge percentage (" ++ number value ++ ") must lie in [0, 1]"
  | trainFraction value => "train fraction (" ++ number value ++ ") must lie in (0, 1]"
  | noSubstates => "initial substate count must be at least 1"
  | noVertical => "vertical markovization order must be at least 1"
  | negativeRandomization value => "randomization (" ++ number value ++ ") must not be negative"

namespace Config

variable {α : Type} [Scalar α]

def standard : Config α where
  output := none
  trainPath := none
  validationPath := none
  resume := none
  rounds := 6
  mergePercentage := 0.5
  separateMergeThreshold := false
  splitMaxIterations := 50
  splitMinIterations := 50
  mergeMaxIterations := 20
  mergeMinIterations := 20
  smoothMaxIterations := 10
  patience := 6
  smoothing := .acrossSiblings
  substates := 1
  vertical := 1
  horizontal := 0
  binarization := .right
  seed := 2
  randomization := 1
  filter := 1e-30
  rareWordThreshold := 20
  reallyRareThreshold := 10
  wordSmoothing := 0.5
  signatureSmoothing := 0.1
  lexicon := .sophisticated
  maxSentenceLength := 10000
  trainFraction := 1
  trainOnDev := false
  lowercase := false
  keepFunctionLabels := false
  baseline := false
  noSplit := false
  allowMoreSubstatesThanCounts := false

/-- The output path of settings that a run can start with. -/
def validate (config : Config α) : Except (ConfigFault α) String := do
  let some output := config.output | throw .noOutput
  if output.isEmpty then throw .noOutput
  if !(0 ≤ config.mergePercentage && config.mergePercentage ≤ 1) then
    throw (.mergePercentage config.mergePercentage)
  if !(0 < config.trainFraction && config.trainFraction ≤ 1) then
    throw (.trainFraction config.trainFraction)
  if config.substates == 0 then throw .noSubstates
  if config.vertical == 0 then throw .noVertical
  if config.randomization < 0 then throw (.negativeRandomization config.randomization)
  return output

/-- The noise of a run; the baseline has none. -/
def noise (config : Config α) : α :=
  if config.baseline then 0 else config.randomization

def lexiconSettings (config : Config α) : LexiconSettings α where
  kind := config.lexicon
  wordSmoothing := config.wordSmoothing
  signatureSmoothing := config.signatureSmoothing
  smoothingCutoff := (config.reallyRareThreshold : α)
  threshold := config.filter

def splitLimits (config : Config α) : InnerLoop.Limits where
  min := config.splitMinIterations
  max := config.splitMaxIterations
  patience := config.patience
  singlePass := false

def mergeLimits (config : Config α) : InnerLoop.Limits where
  min := config.mergeMinIterations
  max := config.mergeMaxIterations
  patience := config.patience
  singlePass := false

def smoothLimits (config : Config α) : InnerLoop.Limits where
  min := config.smoothMaxIterations
  max := config.smoothMaxIterations
  patience := config.patience
  singlePass := false

def baselineLimits (config : Config α) : InnerLoop.Limits where
  min := 0
  max := 1
  patience := config.patience
  singlePass := true

def grammarSmoothing (config : Config α) : Smoothing α :=
  match config.smoothing with
  | .acrossSiblings => .ofStrength 0.01
  | .none => .none

def lexiconSmoothing (config : Config α) : Smoothing α :=
  match config.smoothing with
  | .acrossSiblings => .ofStrength 0.1
  | .none => .none

def treebankOptions (config : Config α) : Treebank.Options α where
  root := Treebank.defaultRoot
  maxLength := config.maxSentenceLength
  fraction := config.trainFraction
  lowercase := config.lowercase
  keepFunctions := config.keepFunctionLabels

end Config

end LatentGrammar.Training
