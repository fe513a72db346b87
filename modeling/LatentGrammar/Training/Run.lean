import LatentGrammar.Merging
import LatentGrammar.Training.Corpus
import LatentGrammar.Training.Expectation
import LatentGrammar.Training.Start
import LatentGrammar.Training.Schedule

/-! A training run. Each phase changes the best model found so far, and an inner loop re-estimates
it until its likelihood on held-out trees stops growing. The models to be saved are part of the
run's result: one after every phase and one at the end. -/

namespace LatentGrammar.Training

variable {α γ : Type}

structure Stage (α : Type) where
  /-- The baseline is no phase. -/
  phase : Option Phase
  round : Nat
  substates : List Nat
  /-- The likelihood of held-out trees right after the phase's change. -/
  initialLikelihood : α
  bestLikelihood : α
  iterations : Nat
  stop : InnerLoop.Ending
  checkpoint : Option (String × Checkpoint α)

def Stage.name (stage : Stage α) : String :=
  match stage.phase with
  | some phase => phase.name
  | none => "baseline"

structure Report (α : Type) where
  stages : List (Stage α)
  finalLikelihood : α
  output : String
  checkpoint : Checkpoint α

/-- A run that has come to its end or failed after some phases, whose models are saved all the
same. -/
structure Attempt (α : Type) where
  stages : List (Stage α)
  result : Except (RunFault α) (Report α)

def Attempt.saves (attempt : Attempt α) : List (String × Checkpoint α) :=
  attempt.stages.filterMap Stage.checkpoint
    ++ match attempt.result with
      | .ok report => [(report.output, report.checkpoint)]
      | .error _ => []

structure Run (α γ : Type) where
  config : Config α
  output : String
  vocabulary : Vocabulary
  train : Forest α
  validation : Forest α
  best : Model α
  /-- Absent until the best model has been scored. -/
  bestLikelihood : Option α
  /-- The latest model, not yet scored on held-out trees. -/
  candidate : Model α
  stream : γ

namespace Run

variable [Scalar α] [Draws γ α]

def rare (config : Config α) : α := (config.rareWordThreshold : α)

def origin (config : Config α) (sources : Sources α) (corpus : Corpus) :
    Except (RunFault α) (Vocabulary × List Nat × Option (Model α)) := do
  match config.resume with
  | some path =>
    let checkpoint ← within (.loadingCheckpoint path) ((sources.checkpoint path).mapError .file)
    return (checkpoint.vocabulary.indexed, checkpoint.model.substates, some checkpoint.model)
  | none =>
    let (vocabulary, substates) := categoriesOf (.empty Treebank.defaultRoot) config.substates
      config.baseline corpus.train corpus.validation
    return (vocabulary, substates, none)

def startingModel (config : Config α) (root : Nat) (train : Forest α) (resumed : Option (Model α))
    (stream : γ) : Except Fault (Model α × γ) :=
  match resumed with
  | some model => .ok (model, stream)
  | none =>
    firstModel train
      { root
        lexicon := config.lexiconSettings
        filter := config.filter
        randomness := config.noise
        rare := rare config } stream

def prepare (seeded : Nat → γ) (config : Config α) (sources : Sources α) (corpus : Corpus) :
    Except (RunFault α) (Run α γ) := do
  let output ← config.validate.mapError .config
  let (vocabulary, substates, resumed) ← origin config sources corpus
  let some root := vocabulary.root? | throw (.rootless vocabulary.rootLabel)
  let train ← within .annotatingTraining (lift (Forest.ofTrees corpus.train substates vocabulary))
  let validation ← within .annotatingValidation
    (lift (Forest.ofTrees corpus.validation substates vocabulary))
  let train :=
    if config.lexicon == .simple then train.replaceRare signature config.rareWordThreshold
    else train
  let (model, stream) ← lift (startingModel config root train resumed (seeded config.seed))
  return {
    config
    output
    vocabulary
    train
    validation
    best := model
    bestLikelihood := none
    candidate := model
    stream }

def checkpoint (run : Run α γ) (model : Model α) : Checkpoint α where
  model
  vocabulary := run.vocabulary
  substates := model.substates
  vertical := run.config.vertical
  horizontal := run.config.horizontal
  binarization := run.config.binarization

def split (run : Run α γ) : Except Fault (Run α γ) := do
  let counts ← run.train.categoryCounts run.best.substates.length
  let randomness := run.config.noise
  let unbounded := run.config.allowMoreSubstatesThanCounts
  let (best, stream) ← run.best.split randomness randomness counts unbounded run.stream
  return { run with best, stream }

/-- Merges the cheapest share of sibling pairs of the best model, and re-estimates its lexicon once
for the merged categories. Only a model whose substates a word can number is merged. -/
def merge (run : Run α γ) [TotalOrder α] : Except Fault (Run α γ) := do
  let _ ← run.best.grammar.substateTotal
  let (train, weights) := Pass.ofSweep run.train (run.best.mergeWeights run.train)
  let weights ← weights
  let (train, candidates) := Pass.ofSweep train (run.best.mergeLosses train weights)
  let candidates ← candidates
  let lexical ← train.lexicalCategories run.best.substates.length
  let selected := SiblingPair.select run.config.separateMergeThreshold
    run.config.mergePercentage lexical candidates
  let merged ← run.best.merge selected weights
  let (train, retrained) :=
    nextLexicon merged (rare run.config) (← train.resize merged.substates)
  let (best, _) ← retrained
  return { run with best, train }

def smooth (run : Run α γ) : Run α γ :=
  { run with
    best := run.best.withSmoothing run.config.grammarSmoothing run.config.lexiconSmoothing }

def transform (run : Run α γ) [TotalOrder α] : Phase → Except Fault (Run α γ)
  | .split => run.split
  | .merge => run.merge
  | .smooth => .ok run.smooth

def fit (set : Forest α) (substates : List Nat) : Except Fault (Forest α) :=
  if set.substates == substates then .ok set else set.resize substates

/-- Gives both forests fresh scores if they are made for other numbers of substates. -/
def resizeTrees (run : Run α γ) (substates : List Nat) : Except Fault (Run α γ) := do
  return { run with
    train := ← fit run.train substates
    validation := ← fit run.validation substates }

structure Forests (α : Type) where
  train : Forest α
  validation : Forest α

def improver (config : Config α) :
    InnerLoop.Improver (StateT (Forests α) (Except Fault)) (Model α) α where
  likelihood model := do
    let sets ← get
    let (validation, outcome) := evaluate model sets.validation
    set { sets with validation }
    return (← outcome).logLikelihood
  improve model := do
    let sets ← get
    let (train, next) := nextModel model (rare config) sets.train
    set { sets with train }
    return (← next).1

def improve (run : Run α γ) (phase : Option Phase) (round : Nat) (limits : InnerLoop.Limits) :
    Except Fault (Run α γ × Stage α) := do
  let substates := run.best.substates
  let run ← run.resizeTrees substates
  let (validation, outcome) := evaluate run.best run.validation
  let initial := (← outcome).logLikelihood
  let (converged, sets) ←
    (InnerLoop.run (improver run.config) run.best initial limits).run ⟨run.train, validation⟩
  return ({ run with
      train := sets.train
      validation := sets.validation
      best := converged.best
      bestLikelihood := some converged.bestLikelihood
      candidate := converged.candidate },
    { phase
      round
      substates
      initialLikelihood := initial
      bestLikelihood := converged.bestLikelihood
      iterations := converged.iterations
      stop := converged.stop
      checkpoint := none })

def runPhase (run : Run α γ) [TotalOrder α] (phase : Phase) (round : Nat) :
    Except Fault (Run α γ × Stage α) := do
  let run ← run.transform phase
  let (run, stage) ← run.improve (some phase) round (phase.limits run.config)
  return (run, { stage with
    checkpoint := some (phase.checkpointPath run.output round, run.checkpoint run.best) })

def runPhases [TotalOrder α] (round : Nat) :
    List Phase → Run α γ → List (Stage α) × Except Fault (Run α γ)
  | [], run => ([], .ok run)
  | phase :: rest, run =>
    match run.runPhase phase round with
    | .error fault => ([], .error fault)
    | .ok (run, stage) =>
      let (stages, result) := runPhases round rest run
      (stage :: stages, result)

def runRounds [TotalOrder α] (phases : List Phase) (round : Nat) :
    Nat → Run α γ → List (Stage α) × Except Fault (Run α γ)
  | 0, run => ([], .ok run)
  | count + 1, run =>
    match runPhases round phases run with
    | (stages, .error fault) => (stages, .error fault)
    | (stages, .ok run) =>
      let (later, result) := runRounds phases (round + 1) count run
      (stages ++ later, result)

/-- Scores the latest model once and takes it if it is better than the best. -/
def close (run : Run α γ) (stages : List (Stage α)) : Except Fault (Report α) := do
  let run ← run.resizeTrees run.candidate.substates
  let last := (← (evaluate run.candidate run.validation).2).logLikelihood
  let (best, likelihood) := match run.bestLikelihood with
    | none => (run.candidate, last)
    | some likelihood =>
      if likelihood < last then (run.candidate, last) else (run.best, likelihood)
  return {
    stages
    finalLikelihood := likelihood
    output := run.output
    checkpoint := run.checkpoint best }

/-- What follows the phases of a run: the baseline's only loop, and the final evaluation. -/
def conclude (run : Run α γ) (stages : List (Stage α)) : Except Fault (Report α) := do
  if run.config.baseline then
    let (run, stage) ← run.improve none 0 run.config.baselineLimits
    run.close (stages ++ [stage])
  else run.close stages

def execute (run : Run α γ) [TotalOrder α] : Attempt α :=
  match run.config.roundCount with
  | .error fault => ⟨[], .error (.model fault)⟩
  | .ok count =>
    let (stages, last) := runRounds run.config.phases 1 count run
    ⟨stages, lift (last.bind (·.conclude stages))⟩

end Run

variable [Scalar α] [TotalOrder α] [Draws γ α]

def trainOn (seeded : Nat → γ) (config : Config α) (sources : Sources α) (corpus : Corpus) :
    Attempt α :=
  match Run.prepare seeded config sources corpus with
  | .ok run => run.execute
  | .error fault => ⟨[], .error fault⟩

def train (seeded : Nat → γ) (config : Config α) (sources : Sources α) : Attempt α :=
  match config.validate with
  | .error fault => ⟨[], .error (.config fault)⟩
  | .ok _ =>
    match Corpus.load sources config with
    | .error fault => ⟨[], .error fault⟩
    | .ok corpus => trainOn seeded config sources corpus

end LatentGrammar.Training
