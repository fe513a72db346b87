import LatentGrammar.Grammar.Basic

namespace LatentGrammar

variable {α : Type} [Scalar α]

def imageSize (mapping : List Nat) : Except Fault Nat :=
  match mapping.max? with
  | none => .ok 0
  | some greatest => word (greatest + 1)

/-- A weight for each old substate relative to those it is merged with; equal weights where the
group has no weight at all. -/
def relativeWeights (mapping : List Nat) (weights : List α) : List α :=
  let weight (old : Nat) : α := (weights[old]?).getD 0
  mapping.zipIdx.map fun (new, old) =>
    let group := (mapping.zipIdx.filter (·.1 == new)).map (·.2)
    let total := Scalar.sum (group.map weight)
    if 0 < total then weight old / total else 1 / ((group.length : Nat) : α)

/-- The mappings of the children of a rule; a unary rule has no right child. -/
def Production.childMappings (key : Production) (mappings : List (List Nat)) :
    Except Fault (List Nat × Option (List Nat)) := do
  match key with
  | unary _ child => return (← fetch mappings child, none)
  | binary _ left right => return (← fetch mappings left, some (← fetch mappings right))

def rightImage (right : Option (List Nat)) (k : Nat) : Except Fault Nat :=
  match right with
  | none => .ok 0
  | some mapping => fetch mapping k

/-- Adds row `i` of the old scores, times its weight, to row `i'` of the new ones. -/
def RuleBlock.addRow (old new : RuleBlock α) (left : List Nat) (right : Option (List Nat))
    (weight : α) (i i' : Nat) : Except Fault (RuleBlock α) :=
  stepBelow old.lefts (fun new j => do
    let j' ← fetch left j
    stepBelow old.rights (fun new k => do
      let k' ← rightImage right k
      new.add i' j' k' (weight * (← old.get i j k))) new) new

def RuleBlock.merge (old : RuleBlock α) (key : Production) (mappings : List (List Nat))
    (weights : List (List α)) (substates : List Nat) : Except Fault (RuleBlock α) := do
  let (parents, lefts, rights) ← key.dimensions substates
  let (left, right) ← key.childMappings mappings
  stepBelow old.parents (fun new i => do
    let i' ← fetch (← fetch mappings key.parent) i
    let weight ← fetch (← fetch weights key.parent) i
    old.addRow new left right weight i i') (← RuleBlock.zeros parents lefts rights)

def mergeAncestries (ancestries : List Ancestry) (mappings : List (List Nat))
    (substates : List Nat) : Except Fault (List Ancestry) :=
  (ancestries.zip (mappings.zip substates)).mapM fun (ancestry, mapping, size) =>
    ancestry.merge mapping size

/-- Collapses the substates of every category as `mappings` says. -/
def Grammar.merge (grammar : Grammar α) (mappings : List (List Nat)) (weights : List (List α)) :
    Except Fault (Grammar α) := do
  let substates ← mappings.mapM imageSize
  checkSizes (substates.take weights.length)
  let weights := (mappings.zip weights).map fun (mapping, row) => relativeWeights mapping row
  let rules ← grammar.rules.mapScoresM fun key scores =>
    scores.merge key mappings weights substates
  let ancestry ← mergeAncestries grammar.ancestry mappings substates
  return { grammar with substates, ancestry, rules }

end LatentGrammar
