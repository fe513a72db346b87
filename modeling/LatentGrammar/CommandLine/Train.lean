import LatentGrammar.CommandLine.Exit
import LatentGrammar.Training.Run

namespace LatentGrammar.CommandLine.Train

open Training

def usage : String := "train --out PATH --train PATH [OPTIONS]"

def grammar : CommandLine.Grammar where
  declarations := [
    .ofPath "out" (some 'o'), .ofPath "train" (some 't'), .ofPath "validation" none,
    .ofWord "rounds", .ofNumber "merge-percentage", .ofFlag "separate-merge-threshold" none,
    .ofWord "split-max-it", .ofWord "split-min-it", .ofWord "merge-max-it",
    .ofWord "merge-min-it", .ofWord "smooth-max-it", .ofWord "patience",
    .ofChoice "smoothing" ["across-parent-bits", "none"], .ofWord "substates",
    .ofWord "vertical", .ofWord "horizontal", .ofChoice "binarization" ["right", "left"],
    .ofWord "seed", .ofNumber "randomization", .ofNumber "filter", .ofWord "rare",
    .ofWord "really-rare", .ofNumber "sm1", .ofNumber "sm2",
    .ofChoice "lexicon" ["sophisticated", "simple"], .ofWord "max-length",
    .ofNumber "train-fraction", .ofFlag "train-on-dev" none, .ofFlag "lowercase" none,
    .ofFlag "keep-function-labels" none, .ofFlag "baseline" none, .ofPath "resume" none,
    .ofFlag "no-split" none, .ofFlag "verbose" (some 'v')]
  positionals := 0
  hasVersion := true

/-- The settings of a command line; the output and the training treebank are required. -/
def config (arguments : List String) : Except Refusal (Config Float) := do
  let parsed ← grammar.parse arguments
  let some output := parsed.value? "out" | throw .usage
  let some trainPath := parsed.value? "train" | throw .usage
  let word (name : String) (default : Nat) : Nat :=
    ((parsed.value? name).bind word?).getD default
  let number (name : String) (default : Float) : Float :=
    ((parsed.value? name).bind Decimal.read?).getD default
  let base : Config Float := .standard
  return {
    output := some output
    trainPath := some trainPath
    validationPath := parsed.value? "validation"
    resume := parsed.value? "resume"
    rounds := word "rounds" base.rounds
    mergePercentage := number "merge-percentage" base.mergePercentage
    separateMergeThreshold := parsed.flag "separate-merge-threshold"
    splitMaxIterations := word "split-max-it" base.splitMaxIterations
    splitMinIterations := word "split-min-it" base.splitMinIterations
    mergeMaxIterations := word "merge-max-it" base.mergeMaxIterations
    mergeMinIterations := word "merge-min-it" base.mergeMinIterations
    smoothMaxIterations := word "smooth-max-it" base.smoothMaxIterations
    patience := word "patience" base.patience
    smoothing := if parsed.value? "smoothing" == some "none" then .none else .acrossSiblings
    substates := word "substates" base.substates
    vertical := word "vertical" base.vertical
    horizontal := word "horizontal" base.horizontal
    binarization := if parsed.value? "binarization" == some "left" then .left else .right
    seed := word "seed" base.seed
    randomization := number "randomization" base.randomization
    filter := number "filter" base.filter
    rareWordThreshold := word "rare" base.rareWordThreshold
    reallyRareThreshold := word "really-rare" base.reallyRareThreshold
    wordSmoothing := number "sm1" base.wordSmoothing
    signatureSmoothing := number "sm2" base.signatureSmoothing
    lexicon := if parsed.value? "lexicon" == some "simple" then .simple else .sophisticated
    maxSentenceLength := word "max-length" base.maxSentenceLength
    trainFraction := number "train-fraction" base.trainFraction
    trainOnDev := parsed.flag "train-on-dev"
    lowercase := parsed.flag "lowercase"
    keepFunctionLabels := parsed.flag "keep-function-labels"
    baseline := parsed.flag "baseline"
    noSplit := parsed.flag "no-split"
    allowMoreSubstatesThanCounts := false }

def stageLine (stage : Stage Float) : String :=
  "round " ++ toString stage.round ++ " " ++ padRight 10 stage.name ++ " iterations "
    ++ padLeft 3 (toString stage.iterations) ++ "  best "
    ++ Decimal.places 4 true stage.bestLikelihood ++ "  (" ++ stage.stop.name ++ ")"

def finalLine (report : Report Float) (substates : Nat) (saved : Bool) : String :=
  "final validation log-likelihood " ++ Decimal.places 4 true report.finalLikelihood ++ ", "
    ++ toString substates ++ " substates, saved to " ++ report.output
    ++ (if saved then "" else " (FAILED)")

def output (report : Report Float) (saved : Bool) : Except Fault String := do
  let substates ← report.checkpoint.model.grammar.substateTotal
  return printed (report.stages.map stageLine ++ [finalLine report substates saved])

/-- The command announces the number of substates that it goes on from, once the treebanks have been
read. -/
def announce (config : Config Float) (sources : Sources Float) :
    Except (RunFault Float) Unit := do
  let some path := config.resume | return
  let _ ← config.validate.mapError .config
  let _ ← Corpus.load sources config
  let checkpoint ← within (.loadingCheckpoint path) ((sources.checkpoint path).mapError .file)
  let _ ← lift checkpoint.model.grammar.substateTotal

def run (config : Config Float) (sources : Sources Float) : Attempt Float :=
  match announce config sources with
  | .error fault => ⟨[], .error fault⟩
  | .ok _ => train Generator.ofSeed config sources

end LatentGrammar.CommandLine.Train
