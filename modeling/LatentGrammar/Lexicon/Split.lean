import LatentGrammar.Grammar.Merge
import LatentGrammar.Grammar.Split
import LatentGrammar.Lexicon.Basic

namespace LatentGrammar

variable {α : Type} [Scalar α]

/-- The table of each of `size` categories. Categories beyond may not have counts. -/
def fitTables (size : Nat) (tables : List (NameTable (List α))) :
    Except Fault (List (NameTable (List α))) :=
  if (tables.drop size).all List.isEmpty then
    .ok (tables.take size ++ List.replicate (size - tables.length) [])
  else .error .outOfRange

/-- A vector of counts over substates each of which becomes `factor` new ones, before noise. -/
def shareCounts (factor : Nat) (counts : List α) : List α :=
  counts.flatMap fun count => List.replicate factor (count / (factor : α))

def splitNames {γ : Type} [Draws γ α] (factor : Nat) (randomness : α) :
    NameTable (List α) → γ → NameTable (List α) × γ
  | [], stream => ([], stream)
  | (name, counts) :: rest, stream =>
    let (counts, stream) := perturbAll randomness (shareCounts factor counts) stream
    let (rest, stream) := splitNames factor randomness rest stream
    ((name, counts) :: rest, stream)

def splitTables {γ : Type} [Draws γ α] (randomness : α) :
    List (Nat × NameTable (List α)) → γ → List (NameTable (List α)) × γ
  | [], stream => ([], stream)
  | (factor, table) :: rest, stream =>
    let (table, stream) := splitNames factor randomness table stream
    let (rest, stream) := splitTables randomness rest stream
    (table :: rest, stream)

/-- Doubles the substates of every category that may be split, by the same rule as for grammars.
Both halves get half the counts, with some noise. -/
def Lexicon.split {γ : Type} [Draws γ α] (lexicon : Lexicon α) (randomness : α)
    (counts : List Nat) (unbounded : Bool) (stream : γ) : Except Fault (Lexicon α × γ) := do
  let factors ← growthFactors lexicon.substates lexicon.root counts unbounded
  let substates ← multiply lexicon.substates factors
  checkSizes substates
  let words ← fitTables substates.length lexicon.tables.wordCounts
  let signatures ← fitTables substates.length lexicon.tables.unseenSignatureCounts
  let (words, stream) := splitTables randomness (factors.zip words) stream
  let (signatures, stream) := splitTables randomness (factors.zip signatures) stream
  return ({
    substates
    root := lexicon.root
    settings := lexicon.settings
    smoothing := .none
    ancestry := splitAncestries lexicon.ancestry factors
    tables := lexicon.tables.retable substates words signatures }, stream)

def mergeCounts (size : Nat) (mapping : List Nat) (counts : List α) : Except Fault (List α) :=
  counts.zipIdx.foldlM (fun merged (count, old) => do
    let new ← fetch mapping old
    return merged.set new ((← fetch merged new) + count)) (List.replicate size 0)

def mergeTables (mappings : List (List Nat)) (substates : List Nat)
    (tables : List (NameTable (List α))) : Except Fault (List (NameTable (List α))) :=
  (mappings.zip (substates.zip tables)).mapM fun (mapping, size, table) =>
    table.mapM fun (name, counts) => do return (name, ← mergeCounts size mapping counts)

def Lexicon.merge (lexicon : Lexicon α) (mappings : List (List Nat)) :
    Except Fault (Lexicon α) := do
  let substates ← mappings.mapM imageSize
  checkSizes substates
  let words ← fitTables substates.length lexicon.tables.wordCounts
  let signatures ← fitTables substates.length lexicon.tables.unseenSignatureCounts
  let words ← mergeTables mappings substates words
  let signatures ← mergeTables mappings substates signatures
  let ancestry ← mergeAncestries lexicon.ancestry mappings substates
  return { lexicon with
    substates
    ancestry
    tables := lexicon.tables.retable substates words signatures }

end LatentGrammar
