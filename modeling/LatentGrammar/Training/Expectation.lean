import LatentGrammar.Grammar.Count
import LatentGrammar.Lexicon.Count
import LatentGrammar.Scoring
import LatentGrammar.Forest

namespace LatentGrammar.Training

variable {α : Type} [Scalar α]

structure Outcome (α : Type) where
  logLikelihood : α
  scored : Nat
  /-- Trees that the model gives no mass. -/
  unparsable : Nat
  deriving Repr, BEq

namespace Outcome

def start : Outcome α := ⟨0, 0, 0⟩

def addScored (outcome : Outcome α) (logLikelihood : α) : Outcome α :=
  { outcome with
    logLikelihood := outcome.logLikelihood + logLikelihood
    scored := outcome.scored + 1 }

def addUnparsable (outcome : Outcome α) : Outcome α :=
  { outcome with unparsable := outcome.unparsable + 1 }

end Outcome

/-- A forest after a pass, and what the pass came to. -/
abbrev Pass (α β : Type) := Forest α × Except Fault β

/-- The forest and the result of a sweep over `forest`; a fault takes the place of the result. -/
def Pass.ofSweep {β : Type} (forest : Forest α) (sweep : Forest.Sweep α β) : Pass α β :=
  ({ forest with trees := sweep.trees },
    match sweep.fault with
    | none => .ok sweep.result
    | some fault => .error fault)

def evaluateTree (model : Model α) (tree : LatentTree α) (outcome : Outcome α) :
    Except Fault (LatentTree α × Outcome α) := do
  let tree ← tree.computeInside model
  if LatentTree.hasLikelihood (← tree.mass) then
    return (tree, outcome.addScored (← tree.logLikelihood))
  else return (tree, outcome.addUnparsable)

def evaluate (model : Model α) (forest : Forest α) : Pass α (Outcome α) :=
  .ofSweep forest (Forest.sweep (fun _ => evaluateTree model) 0 forest.trees .start)

def countAllScored (previous : Grammar α) (active : Nat → Bool) (rare : α) :
    Nat → List (LatentTree α) → RuleCounts α → EmissionCounts α →
      Except Fault (RuleCounts α × EmissionCounts α)
  | _, [], rules, emissions => .ok (rules, emissions)
  | index, tree :: rest, rules, emissions => do
    let rules ← rules.countScored previous tree
    let emissions ← emissions.countScored ⟨active index, rare⟩ tree
    countAllScored previous active rare (index + 1) rest rules emissions

/-- Expected counts; those of rules are left out when only the lexicon is re-estimated. -/
structure Expectation (α : Type) where
  outcome : Outcome α
  rules : Option (RuleCounts α)
  emissions : EmissionCounts α

def expectTree (model : Model α) (rare : α) (size index : Nat) (tree : LatentTree α)
    (expectation : Expectation α) : Except Fault (LatentTree α × Expectation α) := do
  let tree ← tree.computeBoth model
  if LatentTree.hasLikelihood (← tree.mass) then
    let policy : UnseenPolicy α := ⟨inLaterHalf α index size, rare⟩
    let emissions ← expectation.emissions.countScored policy tree
    let rules ← expectation.rules.mapM (·.countScored model.grammar tree)
    return (tree, ⟨expectation.outcome.addScored (← tree.logLikelihood), rules, emissions⟩)
  else
    return (tree, { expectation with outcome := expectation.outcome.addUnparsable })

def expectTrees (model : Model α) (rare : α) (forest : Forest α) (rules : Option (RuleCounts α))
    (emissions : EmissionCounts α) : Forest.Sweep α (Expectation α) :=
  Forest.sweep (expectTree model rare forest.size) 0 forest.trees ⟨.start, rules, emissions⟩

/-- Expected counts of a forest, with the counts of rare words tied. The counts are also those of
the trees before the first one that cannot be scored. -/
def expect (model : Model α) (rare : α) (forest : Forest α) (rules : Option (RuleCounts α))
    (emissions : EmissionCounts α) : Forest.Sweep α (Expectation α) :=
  let sweep := expectTrees model rare forest rules emissions
  match sweep.fault with
  | some _ => sweep
  | none =>
    match sweep.result.emissions.tieRare rare with
    | .error fault => { sweep with fault := some fault }
    | .ok emissions => { sweep with result := { sweep.result with emissions } }

def countsAfter (model : Model α) (withRules : Bool) :
    Except Fault (Option (RuleCounts α) × EmissionCounts α) := do
  let rules ← if withRules then some <$> RuleCounts.after model.grammar else pure none
  return (rules, ← EmissionCounts.after model.lexicon)

def expectAfresh (model : Model α) (rare : α) (forest : Forest α) (withRules : Bool) :
    Pass α (Expectation α) :=
  match countsAfter model withRules with
  | .error fault => (forest, .error fault)
  | .ok (rules, emissions) => .ofSweep forest (expect model rare forest rules emissions)

def maximize (model : Model α) (expectation : Expectation α) :
    Except Fault (Model α × Outcome α) := do
  let grammar ← match expectation.rules with
    | none => pure model.grammar
    | some rules => rules.normalize
  return (⟨grammar, expectation.emissions.estimate⟩, expectation.outcome)

def nextModel (model : Model α) (rare : α) (forest : Forest α) : Pass α (Model α × Outcome α) :=
  let (forest, expectation) := expectAfresh model rare forest true
  (forest, expectation.bind (maximize model))

def nextLexicon (model : Model α) (rare : α) (forest : Forest α) :
    Pass α (Model α × Outcome α) :=
  let (forest, expectation) := expectAfresh model rare forest false
  (forest, expectation.bind (maximize model))

end LatentGrammar.Training
