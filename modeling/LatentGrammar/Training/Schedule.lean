import LatentGrammar.Capacity
import LatentGrammar.Training.Config

namespace LatentGrammar.Training

inductive Phase where
  | split
  | merge
  | smooth
  deriving Repr, DecidableEq

namespace Phase

/-- The phase of a slot, counted through all rounds from zero. -/
def atSlot (slot : Nat) : Phase :=
  match slot % 3 with
  | 0 => split
  | 1 => merge
  | _ => smooth

def name : Phase → String
  | split => "splitting"
  | merge => "merging"
  | smooth => "smoothing"

/-- Where the model of a phase is saved: `<output>_<round>_<phase>`. -/
def checkpointPath (output : String) (round : Nat) (phase : Phase) : String :=
  output ++ "_" ++ toString round ++ "_" ++ phase.name

variable {α : Type} [Scalar α]

def isUsed (config : Config α) : Phase → Bool
  | split => !config.noSplit
  | merge => !(config.mergePercentage == 0)
  | smooth => config.smoothing != .none

def limits (config : Config α) : Phase → InnerLoop.Limits
  | split => config.splitLimits
  | merge => config.mergeLimits
  | smooth => config.smoothLimits

end Phase

namespace Config

variable {α : Type} [Scalar α]

def phases (config : Config α) : List Phase :=
  [.split, .merge, .smooth].filter (·.isUsed config)

/-- The number of rounds of a run. All slots are numbered by words; the baseline has none. -/
def roundCount (config : Config α) : Except Fault Nat := do
  if config.baseline then return 0
  let _ ← word (config.rounds * 3)
  return if config.phases.isEmpty then 0 else config.rounds

end Config

end LatentGrammar.Training
