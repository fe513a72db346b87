import LatentGrammar.Text.Quoted

namespace LatentGrammar

inductive SyntaxFault where
  | expectedOpening
  | emptyConstituent
  | unexpectedEnd
  | unbalanced
  deriving Repr, DecidableEq

def SyntaxFault.message : SyntaxFault → String
  | expectedOpening => "expected '('"
  | emptyConstituent => "empty constituent"
  | unexpectedEnd => "unexpected end of input"
  | unbalanced => "unbalanced parentheses"

inductive Malformation where
  | uncounted (label : String)
  | notBinary (label : String) (children : Nat)
  | mixed (label : String)
  deriving Repr, DecidableEq

def Malformation.message : Malformation → String
  | uncounted label => "no substate count for category " ++ label
  | notBinary label children =>
    label ++ " has " ++ toString children ++ " children; trees must be binarized"
  | mixed label => label ++ " mixes words and constituents"

/-- Reasons why a treebank, a tree or a model cannot be used. -/
inductive Fault where
  | treebank (position : Nat) (cause : SyntaxFault)
  | unknownCategory (label : String)
  /-- A node carries scores for another number of substates than the model has. -/
  | substateMismatch (state tree model : Nat)
  | malformedTree (cause : Malformation)
  /-- A category, substate or rule cell lies outside the table it is looked up in. -/
  | outOfRange
  /-- A number has outgrown a word, or a table the memory. -/
  | overflow
  deriving Repr, DecidableEq

def Fault.message : Fault → String
  | treebank position cause =>
    "treebank syntax error at token " ++ toString position ++ ": " ++ cause.message
  | unknownCategory label => "unknown category: " ++ Text.quoted label
  | substateMismatch state tree model =>
    "substate mismatch for category " ++ toString state ++ ": tree has " ++ toString tree
      ++ ", model has " ++ toString model
  | malformedTree cause => "malformed tree: " ++ cause.message
  | outOfRange => "index out of range"
  | overflow => "size out of range"

/-- Faults that no treebank has; they break off whatever is being done. -/
def Fault.isFatal : Fault → Bool
  | outOfRange => true
  | overflow => true
  | _ => false

def fetch {β : Type} (table : List β) (index : Nat) : Except Fault β :=
  match table[index]? with
  | some entry => .ok entry
  | none => .error .outOfRange

@[simp] theorem fetch_eq_ok_iff {β : Type} {table : List β} {index : Nat} {entry : β} :
    fetch table index = .ok entry ↔ table[index]? = some entry := by
  unfold fetch
  split <;> simp_all

end LatentGrammar
