import LatentGrammar.Capacity
import LatentGrammar.Scalar

namespace LatentGrammar

/-- Values by name, in the order in which the names were first used. -/
abbrev NameTable (β : Type) := List (String × β)

namespace NameTable

variable {β : Type}

/-- Changes the value of a name, which is `default` if the name is new. -/
def alter (name : String) (default : β) (f : β → β) : NameTable β → NameTable β
  | [] => [(name, f default)]
  | (other, value) :: rest =>
    if name == other then (name, f value) :: rest
    else (other, value) :: alter name default f rest

def ofList (entries : List (String × β)) : NameTable β :=
  entries.foldl (fun table (name, value) => table.alter name value fun _ => value) []

def get? (table : NameTable β) (name : String) : Option β := table.lookup name

def contains (table : NameTable β) (name : String) : Bool := (table.get? name).isSome

def same [BEq β] (a b : NameTable β) : Bool :=
  a.length == b.length && a.all fun (name, value) => (b.get? name) == some value

end NameTable

/-- Numbers of tokens. Counts of a tag are per substate; the unseen statistics are those of words
that stand in for unknown ones. -/
structure EmissionTables (α : Type) where
  tagCounts : List (List α)
  wordCounts : List (NameTable (List α))
  wordTotals : NameTable α
  totalTokens : α
  unseenTagCounts : List (List α)
  unseenSignatureCounts : List (NameTable (List α))
  unseenSignatureTotals : NameTable α
  unseenTotal : α
  deriving Repr

namespace EmissionTables

variable {α : Type} [Scalar α]

def empty (substates : List Nat) : Except Fault (EmissionTables α) := do
  let tagCounts ← substates.mapM (fill · 0)
  return {
    tagCounts
    wordCounts := substates.map fun _ => []
    wordTotals := []
    totalTokens := 0
    unseenTagCounts := tagCounts
    unseenSignatureCounts := substates.map fun _ => []
    unseenSignatureTotals := []
    unseenTotal := 0 }

def same (a b : EmissionTables α) : Bool :=
  let sameAll (xs ys : List (NameTable (List α))) : Bool :=
    xs.length == ys.length && (xs.zip ys).all fun (x, y) => x.same y
  a.tagCounts == b.tagCounts && sameAll a.wordCounts b.wordCounts
    && a.wordTotals.same b.wordTotals && a.totalTokens == b.totalTokens
    && a.unseenTagCounts == b.unseenTagCounts
    && sameAll a.unseenSignatureCounts b.unseenSignatureCounts
    && a.unseenSignatureTotals.same b.unseenSignatureTotals && a.unseenTotal == b.unseenTotal

def columnSums (size : Nat) (words : NameTable (List α)) : List α :=
  words.foldl (fun totals (_, counts) => Scalar.addInto totals counts) (List.replicate size 0)

/-- Counts after each tag's tables were replaced by others for new numbers of substates: token
totals stay, tag counts are added up again. -/
def retable (tables : EmissionTables α) (substates : List Nat)
    (wordCounts signatureCounts : List (NameTable (List α))) : EmissionTables α where
  tagCounts := (substates.zip wordCounts).map fun (size, words) => columnSums size words
  wordCounts
  wordTotals := tables.wordTotals
  totalTokens := tables.totalTokens
  unseenTagCounts := (substates.zip signatureCounts).map fun (size, words) => columnSums size words
  unseenSignatureCounts := signatureCounts
  unseenSignatureTotals := tables.unseenSignatureTotals
  unseenTotal := tables.unseenTotal

def addNamed (name : String) (weights : List α) (table : NameTable (List α)) :
    NameTable (List α) :=
  table.alter name (List.replicate weights.length 0) fun counts => Scalar.addInto counts weights

def increment (name : String) (table : NameTable α) : NameTable α := table.alter name 0 (· + 1)

end EmissionTables

end LatentGrammar
