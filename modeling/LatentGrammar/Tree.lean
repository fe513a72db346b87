import LatentGrammar.Unicode.Lowercase

namespace LatentGrammar

inductive Tree where
  | node (label : String) (children : List Tree)
  deriving Repr, BEq, Inhabited

namespace Tree

def label : Tree → String
  | node label _ => label

def children : Tree → List Tree
  | node _ children => children

def leaf (word : String) : Tree := node word []

def isLeaf (tree : Tree) : Bool := tree.children.isEmpty

def isPreterminal (tree : Tree) : Bool :=
  match tree.children with
  | [child] => child.isLeaf
  | _ => false

mutual

def words : Tree → List String
  | node word [] => [word]
  | node _ (first :: rest) => first.words ++ wordsOf rest

def wordsOf : List Tree → List String
  | [] => []
  | tree :: rest => tree.words ++ wordsOf rest

end

mutual

/-- The labels of all constituents, each before those inside it. -/
def categories : Tree → List String
  | node _ [] => []
  | node label (first :: rest) => label :: (first.categories ++ categoriesOf rest)

def categoriesOf : List Tree → List String
  | [] => []
  | tree :: rest => tree.categories ++ categoriesOf rest

end

mutual

def tags : Tree → List String
  | node label [node _ []] => [label]
  | node _ children => tagsOf children

def tagsOf : List Tree → List String
  | [] => []
  | tree :: rest => tree.tags ++ tagsOf rest

end

mutual

def lowerWords : Tree → Tree
  | node word [] => node (Unicode.lowercase word) []
  | node label (first :: rest) => node label (first.lowerWords :: lowerWordsOf rest)

def lowerWordsOf : List Tree → List Tree
  | [] => []
  | tree :: rest => tree.lowerWords :: lowerWordsOf rest

end

mutual

/-- All nodes, each before those inside it: depth, label and number of children. -/
def outline (depth : Nat) : Tree → List (Nat × String × Nat)
  | node label children =>
    (depth, label, children.length) :: outlineOf (depth + 1) children

def outlineOf (depth : Nat) : List Tree → List (Nat × String × Nat)
  | [] => []
  | tree :: rest => tree.outline depth ++ outlineOf depth rest

end

mutual

/-- The bracketed text of a tree: `(S (NP (PRP it)) (VP (VBD rained)))`. -/
def render : Tree → String
  | node word [] => word
  | node label (first :: rest) => "(" ++ label ++ " " ++ first.render ++ renderRest rest ++ ")"

def renderRest : List Tree → String
  | [] => ""
  | tree :: rest => " " ++ tree.render ++ renderRest rest

end

end Tree

end LatentGrammar
