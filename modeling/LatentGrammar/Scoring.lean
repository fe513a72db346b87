import LatentGrammar.LatentTree
import LatentGrammar.Model

namespace LatentGrammar

variable {α : Type} [Scalar α]

namespace RuleBlock

def insideUnary (rule : RuleBlock α) (size : Nat) (child : List α) : Except Fault (List α) :=
  (List.range size).mapM fun i =>
    child.zipIdx.foldlM (fun sum (ic, j) => do return sum + (← rule.get i j 0) * ic) 0

def insideBinary (rule : RuleBlock α) (size : Nat) (left right : List α) :
    Except Fault (List α) :=
  (List.range size).mapM fun i =>
    left.zipIdx.foldlM (fun sum (il, j) => do
      if il == 0 then return sum
      right.zipIdx.foldlM (fun sum (ir, k) => do
        return sum + (← rule.get i j k) * il * ir) sum) 0

def outsideUnary (rule : RuleBlock α) (size : Nat) (parent : List α) : Except Fault (List α) :=
  (List.range size).mapM fun j =>
    parent.zipIdx.foldlM (fun sum (op, i) => do
      if op == 0 then return sum
      return sum + op * (← rule.get i j 0)) 0

def outsideLeft (rule : RuleBlock α) (parent left right : List α) : Except Fault (List α) :=
  (List.range left.length).mapM fun j =>
    parent.zipIdx.foldlM (fun sum (op, i) => do
      if op == 0 then return sum
      right.zipIdx.foldlM (fun sum (ir, k) => do
        return sum + op * (← rule.get i j k) * ir) sum) 0

def outsideRight (rule : RuleBlock α) (parent left right : List α) : Except Fault (List α) :=
  (List.range right.length).mapM fun k =>
    parent.zipIdx.foldlM (fun sum (op, i) => do
      if op == 0 then return sum
      left.zipIdx.foldlM (fun sum (il, j) => do
        return sum + op * (← rule.get i j k) * il) sum) 0

end RuleBlock

namespace LatentTree

/-- Checks that every node has scores for as many substates as the grammar has, from the top on. -/
def checkSubstates (substates : List Nat) (tree : LatentTree α) : Except Fault Unit :=
  tree.subtrees.forM fun node =>
    let model := (substates[node.state]?).getD 0
    if node.substates == model then .ok ()
    else .error (.substateMismatch node.state node.substates model)

/-- Inside scores by a rule that the grammar may lack. -/
def applyRule (rule : Option (RuleBlock α)) (size : Nat)
    (apply : RuleBlock α → Except Fault (List α)) : Except Fault (List α) :=
  match rule with
  | none => .ok (List.replicate size 0)
  | some rule => apply rule

/-- Sets the inside scores of all nodes from the bottom up. The sentence goes on from `position`. -/
def fillInside (model : Model α) (position : Nat) :
    LatentTree α → Except Fault (LatentTree α)
  | preterminal state word scores => do
    let values ← model.lexicon.score word state position
    return .preterminal state word { scores with inside := ScaledVector.rescale ⟨values, 0⟩ }
  | unary state scores child => do
    let child ← child.fillInside model position
    let size := scores.inside.values.length
    let values ← applyRule (model.grammar.rule? (.unary state child.state)) size
      (·.insideUnary size child.inside.values)
    return .unary state
      { scores with inside := ScaledVector.rescale ⟨values, child.inside.scale⟩ } child
  | binary state scores left right => do
    let right ← right.fillInside model (position + left.wordCount)
    let left ← left.fillInside model position
    let size := scores.inside.values.length
    let values ← applyRule (model.grammar.rule? (.binary state left.state right.state)) size
      (·.insideBinary size left.inside.values right.inside.values)
    let scale := left.inside.scale + right.inside.scale
    return .binary state { scores with inside := ScaledVector.rescale ⟨values, scale⟩ } left right

/-- Sets the outside scores of all nodes from the top down, starting with `outside` at the top. -/
def fillOutside (grammar : Grammar α) (outside : ScaledVector α) :
    LatentTree α → Except Fault (LatentTree α)
  | preterminal state word scores => .ok (.preterminal state word { scores with outside })
  | unary state scores child => do
    let values ← applyRule (grammar.rule? (.unary state child.state)) child.substates
      (·.outsideUnary child.substates outside.values)
    let child ← child.fillOutside grammar (ScaledVector.rescale ⟨values, outside.scale⟩)
    return .unary state { scores with outside } child
  | binary state scores left right => do
    let rule := grammar.rule? (.binary state left.state right.state)
    let leftValues ← applyRule rule left.substates
      (·.outsideLeft outside.values left.inside.values right.inside.values)
    let rightValues ← applyRule rule right.substates
      (·.outsideRight outside.values left.inside.values right.inside.values)
    let leftOutside :=
      ScaledVector.rescale ⟨leftValues, outside.scale + right.inside.scale⟩
    let rightOutside :=
      ScaledVector.rescale ⟨rightValues, outside.scale + left.inside.scale⟩
    let left ← left.fillOutside grammar leftOutside
    let right ← right.fillOutside grammar rightOutside
    return .binary state { scores with outside } left right

def computeInside (model : Model α) (tree : LatentTree α) : Except Fault (LatentTree α) := do
  tree.checkSubstates model.substates
  tree.fillInside model 0

/-- The outside scores of the top node: one for each substate. -/
def topOutside (tree : LatentTree α) : ScaledVector α :=
  ⟨tree.outside.values.map fun _ => 1, 0⟩

def computeBoth (model : Model α) (tree : LatentTree α) : Except Fault (LatentTree α) := do
  let tree ← tree.computeInside model
  tree.fillOutside model.grammar tree.topOutside

def logLikelihood (tree : LatentTree α) : Except Fault α := do
  return Scalar.log (← tree.mass) + (tree.inside.scale : α) * (scaleUnit : α)

end LatentTree

end LatentGrammar
