import LatentGrammar.LatentTree
import LatentGrammar.Grammar.Split

namespace LatentGrammar

variable {α : Type} [Scalar α]

namespace LatentTree

def rule? : LatentTree α → Option Production
  | preterminal .. => none
  | unary state _ child => some (.unary state child.state)
  | binary state _ left right => some (.binary state left.state right.state)

end LatentTree

namespace RuleBlock

/-- Adds the expected uses of a unary rule at a node whose outside scores, times `factor`, and whose
child's inside scores are given. -/
def countUnary (counts rule : RuleBlock α) (factor : α) (outside child : List α) :
    Except Fault (RuleBlock α) :=
  stepBelow rule.parents (fun counts i => do
    let o := (← fetch outside i) * factor
    if o == 0 then return counts
    stepBelow rule.lefts (fun counts j => do
      counts.add i j 0 (o * (← rule.get i j 0) * (← fetch child j))) counts) counts

def countBinary (counts rule : RuleBlock α) (factor : α) (outside left right : List α) :
    Except Fault (RuleBlock α) :=
  stepBelow rule.parents (fun counts i => do
    let o := (← fetch outside i) * factor
    if o == 0 then return counts
    stepBelow rule.lefts (fun counts j => do
      let ol := o * (← fetch left j)
      if ol == 0 then return counts
      stepBelow rule.rights (fun counts k => do
        counts.add i j k (ol * (← rule.get i j k) * (← fetch right k))) counts) counts) counts

end RuleBlock

namespace RuleCounts

/-- The counts of a rule, which are zeros if there are none yet. -/
def block (counts : RuleCounts α) (key : Production) (dimensions : Nat × Nat × Nat) :
    Except Fault (RuleBlock α) :=
  match counts.rules.find? key with
  | some scores => .ok scores
  | none => RuleBlock.zeros dimensions.1 dimensions.2.1 dimensions.2.2

def countTopEvenly (counts : RuleCounts α) (tree : LatentTree α) : Except Fault (RuleCounts α) := do
  match tree.rule? with
  | none => return counts
  | some key =>
    let scores ← counts.block key (← key.dimensions counts.substates)
    return { counts with rules := counts.rules.insert key (scores.map (· + 1)) }

def countEvenly (counts : RuleCounts α) (tree : LatentTree α) : Except Fault (RuleCounts α) :=
  tree.subtrees.foldlM countTopEvenly counts

/-- Adds the expected uses of the rule at the top of `tree`, a part of a sentence whose mass and
inside scale are given. Rules that the previous grammar lacks are passed over. -/
def countScoredTop (previous : Grammar α) (mass : α) (scale : Int) (counts : RuleCounts α)
    (tree : LatentTree α) : Except Fault (RuleCounts α) := do
  let some key := tree.rule? | return counts
  let some rule := previous.rule? key | return counts
  let scores ← counts.block key (rule.parents, rule.lefts, rule.rights)
  let outside := tree.outside
  let scores ← match tree with
    | .preterminal .. => pure scores
    | .unary _ _ child =>
      let factor := Scalar.scaleFactor (outside.scale + child.inside.scale - scale) / mass
      scores.countUnary rule factor outside.values child.inside.values
    | .binary _ _ left right =>
      let factor :=
        Scalar.scaleFactor (outside.scale + left.inside.scale + right.inside.scale - scale) / mass
      scores.countBinary rule factor outside.values left.inside.values right.inside.values
  return { counts with rules := counts.rules.insert key scores }

def countScored (counts : RuleCounts α) (previous : Grammar α) (tree : LatentTree α) :
    Except Fault (RuleCounts α) := do
  let mass ← tree.mass
  if mass ≤ 0 then return counts
  tree.subtrees.foldlM (countScoredTop previous mass tree.inside.scale) counts

def perturbRules {γ : Type} [Draws γ α] (randomness : α) :
    List (Production × RuleBlock α) → γ → List (Production × RuleBlock α) × γ
  | [], stream => ([], stream)
  | (key, scores) :: rest, stream =>
    let (cells, stream) := perturbAll randomness scores.cells.toList stream
    let (rest, stream) := perturbRules randomness rest stream
    ((key, { scores with cells := cells.toArray }) :: rest, stream)

def addTotals (totals : List (List α)) (entry : Production × RuleBlock α) :
    Except Fault (List (List α)) := do
  let (key, scores) := entry
  let rows ← fetch totals key.parent
  let rows ← rows.zipIdx.mapM fun (total, i) => return total + (← scores.rowTotal i)
  return totals.set key.parent rows

def totals (substates : List Nat) (rules : RuleTable α) : Except Fault (List (List α)) := do
  rules.entries.foldlM addTotals (← substates.mapM (fill · 0))

def probability (threshold total count : α) : α :=
  let probability := if 0 < total then count / total else 0
  if probability < threshold then 0 else probability

end RuleCounts

namespace RuleBlock

/-- Replaces the cells that belong to a row, given the row's number, and the cell's number in it. -/
def mapCells (f : Nat → Nat → α → α) (scores : RuleBlock α) : RuleBlock α :=
  let width := scores.width
  { scores with
    cells := scores.cells.mapIdx fun offset value =>
      if offset < scores.parents * width then f (offset / width) (offset % width) value else value }

def normalize (threshold : α) (totals : List α) (scores : RuleBlock α) :
    Except Fault (RuleBlock α) := do
  let rows ← tabulate scores.parents (fetch totals)
  if scores.cells.size < scores.parents * scores.width then throw .outOfRange
  return scores.mapCells fun i _ value =>
    RuleCounts.probability threshold ((rows[i]?).getD 0) value

def column (scores : RuleBlock α) (number : Nat) : Except Fault (List α) :=
  tabulate scores.parents fun i =>
    match scores.cells[i * scores.width + number]? with
    | some value => .ok value
    | none => .error .outOfRange

def smooth (smoothing : Smoothing α) (ancestries : List Ancestry) (parent : Nat)
    (scores : RuleBlock α) : Except Fault (RuleBlock α) := do
  let columns ← tabulate scores.width fun number => do
    let column ← scores.column number
    return smoothing.smooth (← fetch ancestries parent) column
  return scores.mapCells fun i number value =>
    (columns[number]?.bind (·[i]?)).getD value

end RuleBlock

namespace RuleCounts

def normalizeRule (counts : RuleCounts α) (totals : List (List α)) (key : Production)
    (scores : RuleBlock α) : Except Fault (RuleBlock α) := do
  let scores ← scores.normalize counts.threshold (← fetch totals key.parent)
  if counts.smoothing.isActive then scores.smooth counts.smoothing counts.ancestry key.parent
  else return scores

/-- Turns counts into probabilities: every parent substate's counts are divided by their total over
all rules, small probabilities are pruned, and the installed smoothing is applied. -/
def normalize (counts : RuleCounts α) : Except Fault (Grammar α) := do
  let totals ← totals counts.substates counts.rules
  let rules ← counts.rules.mapScoresM (counts.normalizeRule totals)
  return { toGrammarFrame := counts.toGrammarFrame, rules }

def estimate {γ : Type} [Draws γ α] (counts : RuleCounts α) (randomness : α) (stream : γ) :
    Except Fault (Grammar α × γ) := do
  let (rules, stream) :=
    if 0 < randomness then perturbRules randomness counts.rules.entries stream
    else (counts.rules.entries, stream)
  return (← { counts with rules := ⟨rules⟩ }.normalize, stream)

end RuleCounts

end LatentGrammar
