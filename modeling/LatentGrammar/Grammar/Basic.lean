import LatentGrammar.Grammar.Rule
import LatentGrammar.Smoothing

namespace LatentGrammar

structure GrammarFrame (α : Type) where
  substates : List Nat
  root : Nat
  smoothing : Smoothing α
  /-- Smaller probabilities are pruned when counts are normalized. -/
  threshold : α
  ancestry : List Ancestry
  deriving Repr, BEq

structure Grammar (α : Type) extends GrammarFrame α where
  rules : RuleTable α
  deriving Repr, BEq

structure RuleCounts (α : Type) extends GrammarFrame α where
  rules : RuleTable α
  deriving Repr, BEq

def Production.dimensions (key : Production) (substates : List Nat) :
    Except Fault (Nat × Nat × Nat) := do
  match key with
  | unary parent child => return (← fetch substates parent, ← fetch substates child, 1)
  | binary parent left right =>
    return (← fetch substates parent, ← fetch substates left, ← fetch substates right)

namespace Grammar

variable {α : Type}

def rule? (grammar : Grammar α) (key : Production) : Option (RuleBlock α) :=
  grammar.rules.find? key

def substateTotal (grammar : Grammar α) : Except Fault Nat :=
  word (grammar.substates.foldl (· + ·) 0)

/-- Installs a kind of smoothing; it acts when counts of this frame are next normalized. -/
def withSmoothing (grammar : Grammar α) (smoothing : Smoothing α) : Grammar α :=
  { grammar with smoothing }

end Grammar

namespace RuleCounts

variable {α : Type}

def start (substates : List Nat) (root : Nat) (threshold : α) : Except Fault (RuleCounts α) := do
  return {
    substates
    root
    smoothing := .none
    threshold
    ancestry := ← substates.mapM Ancestry.uniform
    rules := .empty }

/-- No counts yet for the rules and in the frame of a grammar. -/
def after [Zero α] (grammar : Grammar α) : Except Fault (RuleCounts α) := do
  let rules ← grammar.rules.mapScoresM fun _ scores =>
    RuleBlock.zeros scores.parents scores.lefts scores.rights
  return { toGrammarFrame := grammar.toGrammarFrame, rules }

end RuleCounts

end LatentGrammar
