import LatentGrammar.Fault

namespace LatentGrammar

structure Vocabulary where
  labels : List String
  rootLabel : String
  /-- The newest entry of a label counts. -/
  index : List (String × Nat)
  deriving Repr, DecidableEq

namespace Vocabulary

def empty (rootLabel : String) : Vocabulary := ⟨[], rootLabel, []⟩

def size (vocabulary : Vocabulary) : Nat := vocabulary.labels.length

def id? (vocabulary : Vocabulary) (label : String) : Option Nat :=
  vocabulary.index.lookup label

def label? (vocabulary : Vocabulary) (id : Nat) : Option String := vocabulary.labels[id]?

def root? (vocabulary : Vocabulary) : Option Nat := vocabulary.id? vocabulary.rootLabel

def id (vocabulary : Vocabulary) (label : String) : Except Fault Nat :=
  match vocabulary.id? label with
  | some id => .ok id
  | none => .error (.unknownCategory label)

/-- The number of a label, which becomes the next free one if the label is new. -/
def intern (vocabulary : Vocabulary) (label : String) : Nat × Vocabulary :=
  match vocabulary.id? label with
  | some id => (id, vocabulary)
  | none =>
    (vocabulary.size,
      { vocabulary with
        labels := vocabulary.labels ++ [label]
        index := (label, vocabulary.size) :: vocabulary.index })

def internAll (vocabulary : Vocabulary) (labels : List String) : Vocabulary :=
  labels.foldl (fun vocabulary label => (vocabulary.intern label).2) vocabulary

def unindexed (labels : List String) (rootLabel : String) : Vocabulary := ⟨labels, rootLabel, []⟩

def indexed (vocabulary : Vocabulary) : Vocabulary :=
  { vocabulary with index := vocabulary.labels.zipIdx.reverse }

/-- Takes over a stored table, whether or not its index was kept. -/
def restore (_ : Vocabulary) (stored : Vocabulary) : Vocabulary := stored.indexed

end Vocabulary

end LatentGrammar
