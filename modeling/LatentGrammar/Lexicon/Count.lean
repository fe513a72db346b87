import LatentGrammar.LatentTree
import LatentGrammar.Grammar.Split
import LatentGrammar.Lexicon.Basic

namespace LatentGrammar

variable {α : Type} [Scalar α]

namespace LatentTree

/-- The posterior of each substate at a node of a sentence whose mass and inside scale are given. -/
def posteriorIn (mass : α) (scale : Int) (node : LatentTree α) : List α :=
  if mass ≤ 0 then List.replicate node.substates 0
  else
    let factor := Scalar.scaleFactor (node.inside.scale + node.outside.scale - scale) / mass
    (node.inside.values.zip node.outside.values).map fun (i, o) => i * o * factor

def posteriors (tree : LatentTree α) : Except Fault (List (List α)) := do
  let mass ← tree.mass
  return tree.subtrees.map (posteriorIn mass tree.inside.scale)

end LatentTree

def inLaterHalf (α : Type) [Scalar α] (index size : Nat) : Bool :=
  (size : α) / ((2 : Nat) : α) < (index : α)

structure UnseenPolicy (α : Type) where
  /-- Whether the sentence is one of those that these statistics are taken from. -/
  active : Bool
  /-- Words seen this often before do not stand in for unknown ones. -/
  rare : α

namespace EmissionCounts

def add (counts : EmissionCounts α) (policy : UnseenPolicy α) (state : Nat) (word : String)
    (position : Nat) (weights : List α) : Except Fault (EmissionCounts α) := do
  let tables := counts.tables
  let seen := (tables.wordTotals.get? word).getD 0
  let words ← fetch tables.wordCounts state
  let tags ← fetch tables.tagCounts state
  let tables := { tables with
    wordCounts := tables.wordCounts.set state (EmissionTables.addNamed word weights words)
    tagCounts := tables.tagCounts.set state (Scalar.addInto tags weights)
    wordTotals := EmissionTables.increment word tables.wordTotals
    totalTokens := tables.totalTokens + 1 }
  if policy.active && seen < policy.rare then
    let sign := signature word position
    let signatures ← fetch tables.unseenSignatureCounts state
    let tags ← fetch tables.unseenTagCounts state
    return { counts with tables := { tables with
      unseenSignatureCounts :=
        tables.unseenSignatureCounts.set state (EmissionTables.addNamed sign weights signatures)
      unseenTagCounts := tables.unseenTagCounts.set state (Scalar.addInto tags weights)
      unseenSignatureTotals := EmissionTables.increment sign tables.unseenSignatureTotals
      unseenTotal := tables.unseenTotal + 1 } }
  else return { counts with tables }

def countPreterminal (policy : UnseenPolicy α) (mass : α) (scale : Int)
    (counts : EmissionCounts α) (entry : LatentTree α × Nat) :
    Except Fault (EmissionCounts α) :=
  match entry with
  | (node@(.preterminal state word _), position) =>
    counts.add policy state word position (node.posteriorIn mass scale)
  | _ => .ok counts

def countScored (counts : EmissionCounts α) (policy : UnseenPolicy α) (tree : LatentTree α) :
    Except Fault (EmissionCounts α) := do
  let mass ← tree.mass
  if mass ≤ 0 then return counts
  tree.preterminals.zipIdx.foldlM (countPreterminal policy mass tree.inside.scale) counts

/-- Weights that sum to one, in the given proportions; equal ones if the proportions have no
positive sum. -/
def proportions (size : Nat) (weights : List α) : List α :=
  let total := Scalar.sum weights
  if 0 < total then weights.map (· / total) else List.replicate size (1 / (size : α))

/-- Adds the preterminals of a tree that has not been scored. The substates of a tag are weighted as
the reference lexicon scores the word, or equally without one, with some noise. -/
def countTokens {γ : Type} [Draws γ α] (policy : UnseenPolicy α) (randomness : α)
    (reference : Option (Lexicon α)) :
    List (LatentTree α × Nat) → EmissionCounts α → γ → Except Fault (EmissionCounts α × γ)
  | [], counts, stream => .ok (counts, stream)
  | (.preterminal state word _, position) :: rest, counts, stream => do
    let size ← fetch counts.substates state
    let weights ← match reference with
      | some lexicon => lexicon.score word state position
      | none => pure (List.replicate size 1)
    let (weights, stream) := perturbAll randomness weights stream
    let counts ← counts.add policy state word position (proportions size weights)
    countTokens policy randomness reference rest counts stream
  | _ :: rest, counts, stream => countTokens policy randomness reference rest counts stream

def countUnscored {γ : Type} [Draws γ α] (policy : UnseenPolicy α) (randomness : α)
    (reference : Option (Lexicon α)) (counts : EmissionCounts α) (tree : LatentTree α)
    (stream : γ) : Except Fault (EmissionCounts α × γ) :=
  countTokens policy randomness reference tree.preterminals.zipIdx counts stream

/-- Spreads a word's count over the substates in proportion to the unseen statistics; entries
without a partner stay. -/
def spread (total unseenTotal : α) : List α → List α → List α
  | _ :: counts, unseen :: rest =>
    total * unseen / unseenTotal :: spread total unseenTotal counts rest
  | counts, _ => counts

def tieWords (wordTotals : NameTable α) (rare : α) (unseen : List α)
    (words : NameTable (List α)) : NameTable (List α) :=
  let unseenTotal := Scalar.sum unseen
  if unseenTotal ≤ 0 then words
  else
    words.map fun (word, counts) =>
      if rare ≤ (wordTotals.get? word).getD 0 then (word, counts)
      else (word, spread (Scalar.sum counts) unseenTotal counts unseen)

/-- Redistributes the counts of words seen fewer than `rare` times over their tags' substates as the
unseen statistics are distributed. -/
def tieRare (rare : α) (counts : EmissionCounts α) : Except Fault (EmissionCounts α) := do
  let tables := counts.tables
  let wordCounts ← tables.wordCounts.zipIdx.mapM fun (words, state) => do
    return tieWords tables.wordTotals rare (← fetch tables.unseenTagCounts state) words
  return { counts with tables := { tables with wordCounts } }

end EmissionCounts

end LatentGrammar
