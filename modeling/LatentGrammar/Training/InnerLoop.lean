import LatentGrammar.Scalar

/-! The inner loop of training: a model is re-estimated until its likelihood on held-out trees stops
growing. Every iteration scores the latest model and derives the next one from it, so the model that
is left at the end has never been scored. -/

namespace LatentGrammar.Training.InnerLoop

structure Limits where
  /-- The first `min` iterations always take their model as the best. -/
  min : Nat
  max : Nat
  /-- Stop after this many iterations in a row without improvement. -/
  patience : Nat
  singlePass : Bool
  deriving Repr, DecidableEq

inductive Ending where
  | patience
  | maxIterations
  | singlePass
  deriving Repr, DecidableEq

def Ending.name : Ending → String
  | patience => "Patience"
  | maxIterations => "MaxIterations"
  | singlePass => "SinglePass"

structure Improver (m : Type → Type) (μ α : Type) where
  likelihood : μ → m α
  improve : μ → m μ

/-- The state of an inner loop between two iterations. -/
structure Progress (μ α : Type) where
  best : μ
  bestLikelihood : α
  latest : μ
  dropping : Nat
  completed : Nat
  seen : List α

structure Result (μ α : Type) where
  best : μ
  bestLikelihood : α
  /-- The last model, never scored on held-out trees. -/
  candidate : μ
  iterations : Nat
  stop : Ending
  history : List α
  deriving Repr

namespace Progress

variable {μ α : Type} [Scalar α]

def start (model : μ) (likelihood : α) : Progress μ α := ⟨model, likelihood, model, 0, 0, []⟩

def advance (progress : Progress μ α) (limits : Limits) (likelihood : α) (next : μ) :
    Progress μ α :=
  if progress.completed < limits.min || progress.bestLikelihood ≤ likelihood then
    { best := progress.latest
      bestLikelihood := likelihood
      latest := next
      dropping := 0
      completed := progress.completed + 1
      seen := likelihood :: progress.seen }
  else
    { progress with
      latest := next
      dropping := progress.dropping + 1
      completed := progress.completed + 1
      seen := likelihood :: progress.seen }

/-- Whether the loop ends after an iteration, apart from the greatest number of them. -/
def stop? (progress : Progress μ α) (limits : Limits) : Option Ending :=
  if limits.singlePass then some .singlePass
  else if limits.patience ≤ progress.dropping && limits.min ≤ progress.completed then
    some .patience
  else none

def result (progress : Progress μ α) (stop : Ending) : Result μ α where
  best := progress.best
  bestLikelihood := progress.bestLikelihood
  candidate := progress.latest
  iterations := progress.completed
  stop
  history := progress.seen.reverse

end Progress

variable {m : Type → Type} [Monad m] {μ α : Type} [Scalar α]

def iterate (improver : Improver m μ α) (limits : Limits) :
    Nat → Progress μ α → m (Result μ α)
  | more, progress => do
    let likelihood ← improver.likelihood progress.latest
    let next ← improver.improve progress.latest
    let progress := progress.advance limits likelihood next
    match progress.stop? limits with
    | some reason => return progress.result reason
    | none =>
      match more with
      | 0 => return progress.result .maxIterations
      | more + 1 => iterate improver limits more progress

/-- Runs the inner loop from a model whose likelihood on held-out trees is known. At least one
iteration is run. -/
def run (improver : Improver m μ α) (start : μ) (likelihood : α)
    (limits : Limits) : m (Result μ α) :=
  iterate improver limits (limits.max - 1) (.start start likelihood)

end LatentGrammar.Training.InnerLoop
