import LatentGrammar.Lexicon.Count
import LatentGrammar.Lexicon.Split
import LatentGrammar.Scoring
import LatentGrammar.Forest
import LatentGrammar.Word

namespace LatentGrammar

/-- A pair of siblings of one category, and the change in log-likelihood if they are merged. -/
structure SiblingPair (α : Type) where
  state : Nat
  first : Nat
  second : Nat
  delta : α
  deriving Repr, BEq, DecidableEq

variable {α : Type} [Scalar α]

namespace Model

def addWeights (weights : List (List α)) (entry : Nat × List α) : Except Fault (List (List α)) := do
  let (state, posterior) := entry
  return weights.set state (Scalar.addInto (← fetch weights state) posterior)

def weighTree (model : Model α) (tree : LatentTree α) (weights : List (List α)) :
    Except Fault (LatentTree α × List (List α)) := do
  let tree ← tree.computeBoth model
  if LatentTree.hasLikelihood (← tree.mass) then
    let states := tree.subtrees.map LatentTree.state
    return (tree, ← (states.zip (← tree.posteriors)).foldlM addWeights weights)
  else return (tree, weights)

/-- The expected number of visits to every substate, over the trees that the model can score. -/
def mergeWeights (model : Model α) (forest : Forest α) : Forest.Sweep α (List (List α)) :=
  match model.substates.mapM (fill · 0) with
  | .error fault => ⟨forest.trees, [], some fault⟩
  | .ok weights => Forest.sweep (fun _ => model.weighTree) 0 forest.trees weights

def mergeCandidates (model : Model α) : List (SiblingPair α) :=
  model.grammar.ancestry.zipIdx.flatMap fun (ancestry, state) =>
    if state == model.grammar.root then []
    else ancestry.pairs.map fun (first, second) => ⟨state, first, second, 0⟩

/-- A node's total score if a pair is merged: the pair's inside scores are averaged by weight and
its outside scores added up. -/
def mergedTotal (weights inside outside : List α) (total : α) (first second : Nat) :
    Except Fault α := do
  let wa ← fetch weights first
  let wb ← fetch weights second
  let (pa, pb) := if 0 < wa + wb then (wa / (wa + wb), wb / (wa + wb)) else (0.5, 0.5)
  let ia ← fetch inside first
  let ib ← fetch inside second
  let oa ← fetch outside first
  let ob ← fetch outside second
  let mergedInside := pa * ia + pb * ib
  let mergedOutside := oa + ob
  return total - ia * oa - ib * ob + mergedInside * mergedOutside

def addLoss (weights : List (List α)) (node : LatentTree α) (total : α)
    (candidate : SiblingPair α) : Except Fault (SiblingPair α) := do
  if candidate.state != node.state then return candidate
  let merged ← mergedTotal (← fetch weights node.state) node.inside.values node.outside.values total
    candidate.first candidate.second
  if 0 < merged then
    return { candidate with delta := candidate.delta + Scalar.log (merged / total) }
  else return candidate

def addLosses (states : Nat) (weights : List (List α)) (candidates : List (SiblingPair α))
    (node : LatentTree α) : Except Fault (List (SiblingPair α)) := do
  let total :=
    Scalar.sum ((node.inside.values.zip node.outside.values).map fun (i, o) => i * o)
  if total ≤ 0 then return candidates
  if states ≤ node.state then throw .outOfRange
  candidates.mapM (addLoss weights node total)

def judgeTree (model : Model α) (weights : List (List α)) (tree : LatentTree α)
    (candidates : List (SiblingPair α)) :
    Except Fault (LatentTree α × List (SiblingPair α)) := do
  let tree ← tree.computeBoth model
  if LatentTree.hasLikelihood (← tree.mass) then
    return (tree, ← tree.subtrees.foldlM (addLosses model.substates.length weights) candidates)
  else return (tree, candidates)

def mergeLosses (model : Model α) (forest : Forest α) (weights : List (List α)) :
    Forest.Sweep α (List (SiblingPair α)) :=
  let candidates := model.mergeCandidates
  if candidates.all (·.state < model.substates.length) then
    Forest.sweep (fun _ => model.judgeTree weights) 0 forest.trees candidates
  else ⟨forest.trees, candidates, some .outOfRange⟩

end Model

/-- Numbers that are all comparable with each other, by keys that compare as the numbers do. -/
class TotalOrder (δ : Type) where
  key : δ → Int

/-- Any 64 bits, read as a number in double precision. There are many patterns that are no number,
negative and positive ones. -/
structure Binary64 where
  bits : UInt64
  deriving Repr, DecidableEq

/-- The greater the bits, the farther from zero; patterns with a sign are below the others. -/
instance : TotalOrder Binary64 where
  key x :=
    let bits := x.bits.toNat
    if bits < Word.signBit then bits else Word.signBit - 1 - bits

/-- A `Float` has the place of its pattern. Of all that is no number it knows one pattern only, a
positive one. -/
instance : TotalOrder Float where
  key x := TotalOrder.key (Binary64.mk x.toBits)

namespace SiblingPair

/-- The number of candidates, rounded down, that a share of them is. -/
def budget (share : α) (size : Nat) : Nat :=
  Scalar.floorNat ((size : α) * Scalar.clamp share 0 1)

variable {δ : Type} [TotalOrder δ]

/-- The cheapest share of the candidates, cheapest first; of equally cheap ones the earlier. -/
def cheapest (share : α) (candidates : List (SiblingPair δ)) : List (SiblingPair δ) :=
  let sorted := candidates.mergeSort fun a b => TotalOrder.key b.delta ≤ TotalOrder.key a.delta
  sorted.take (budget share candidates.length)

def select (separate : Bool) (share : α) (lexical : List Bool)
    (candidates : List (SiblingPair δ)) : List (SiblingPair δ) :=
  if separate then
    let isLexical (candidate : SiblingPair δ) : Bool := (lexical[candidate.state]?).getD false
    cheapest share (candidates.filter isLexical)
      ++ cheapest share (candidates.filter fun candidate => !isLexical candidate)
  else cheapest share candidates

end SiblingPair

/-- The lowest substate that each substate of a category is to be merged into by itself. -/
def collapseTargets (size : Nat) (pairs : List (Nat × Nat)) : Except Fault (List Nat) :=
  pairs.foldlM (fun targets (a, b) => do
    let _ ← fetch targets (max a b)
    return targets.set (max a b) (min a b)) (List.range size)

/-- Numbers the substates that are their own targets; the others take their targets' numbers. -/
def numberTargets : List Nat → Nat → List Nat → List Nat
  | _, _, [] => []
  | numbered, next, target :: rest =>
    if target == numbered.length then
      next :: numberTargets (numbered ++ [next]) (next + 1) rest
    else
      let number := (numbered[target]?).getD 0
      number :: numberTargets (numbered ++ [number]) next rest

def collapseMap (size : Nat) (pairs : List (Nat × Nat)) : Except Fault (List Nat) := do
  checkSizes [size]
  return numberTargets [] 0 (← collapseTargets size pairs)

def collapseMaps (substates : List Nat) (selected : List (SiblingPair α)) :
    Except Fault (List (List Nat)) :=
  substates.zipIdx.mapM fun (size, state) =>
    collapseMap size ((selected.filter (·.state == state)).map fun c => (c.first, c.second))

def Model.collapse (model : Model α) (mappings : List (List Nat)) (weights : List (List α)) :
    Except Fault (Model α) := do
  return ⟨← model.grammar.merge mappings weights, ← model.lexicon.merge mappings⟩

def Model.merge (model : Model α) (selected : List (SiblingPair α)) (weights : List (List α)) :
    Except Fault (Model α) := do
  model.collapse (← collapseMaps model.substates selected) weights

end LatentGrammar
