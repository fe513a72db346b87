import LatentGrammar.Tree

/-! Binary trees from trees with constituents of any width. Categories are first annotated with
their ancestors; a wide constituent then becomes a spine of intermediate nodes whose labels remember
some of the siblings that are still outside. -/

namespace LatentGrammar.Treebank

/-- The side on which the spine of a wide constituent hangs. -/
inductive Direction where
  | left
  | right
  deriving Repr, DecidableEq

/-- `label` followed by the nearest `count` of its ancestors, the nearest standing first in
`ancestors`. -/
def annotatedLabel (label : String) (ancestors : List String) (count : Nat) : String :=
  (ancestors.take count).foldl (fun text ancestor => text ++ "^" ++ ancestor) label

mutual

def annotateAncestors (count : Nat) (ancestors : List String) : Tree → Tree
  | .node word [] => .node word []
  | .node tag [.node word []] => .node tag [.node word []]
  | .node label children =>
    .node (annotatedLabel label ancestors count)
      (annotateAncestorsOf count (label :: ancestors) children)

def annotateAncestorsOf (count : Nat) (ancestors : List String) : List Tree → List Tree
  | [] => []
  | tree :: rest =>
    annotateAncestors count ancestors tree :: annotateAncestorsOf count ancestors rest

end

def annotate (vertical : Nat) (tree : Tree) : Tree :=
  .node tree.label (annotateAncestorsOf (vertical - 1) [tree.label] tree.children)

/-- The label of a spine node: the category, and the last `horizontal` of the siblings outside. -/
def spineLabel (horizontal : Nat) (base : String) (outside : List Tree) : String :=
  (outside.drop (outside.length - horizontal)).foldl
    (fun text sibling => text ++ "_" ++ sibling.label) ("@" ++ base ++ "->")

/-- Wraps the children that follow `before`, which stand in reverse, into a spine that descends to
the right: each node holds one child and the rest. -/
def hangRight (horizontal : Nat) (base : String) (before : List Tree) (first : Tree) :
    List Tree → Tree
  | [] => first
  | second :: rest =>
    .node (spineLabel horizontal base before.reverse)
      [first, hangRight horizontal base (first :: before) second rest]

/-- Attaches children to `spine` from the left, up to and without the last one: each node holds the
spine so far and one child. -/
def hangLeft (horizontal : Nat) (base : String) (spine : Tree) : List Tree → List Tree
  | [] => [spine]
  | [last] => [spine, last]
  | next :: rest =>
    hangLeft horizontal base
      (.node (spineLabel horizontal base rest.reverse) [spine, next]) rest

def splitChildren (horizontal : Nat) (direction : Direction) (base : String) :
    List Tree → List Tree
  | first :: second :: third :: rest =>
    match direction with
    | .right => [first, hangRight horizontal base [first] second (third :: rest)]
    | .left => hangLeft horizontal base first (second :: third :: rest)
  | children => children

mutual

def splitWide (horizontal : Nat) (direction : Direction) : Tree → Tree
  | .node word [] => .node word []
  | .node label (first :: rest) =>
    .node label (splitChildren horizontal direction label
      (splitWide horizontal direction first :: splitWideOf horizontal direction rest))

def splitWideOf (horizontal : Nat) (direction : Direction) : List Tree → List Tree
  | [] => []
  | tree :: rest => splitWide horizontal direction tree :: splitWideOf horizontal direction rest

end

/-- The binary tree of a tree: `vertical` is the number of generations that a label mentions, itself
included, and `horizontal` the number of siblings that an intermediate label remembers. -/
def binarize (vertical horizontal : Nat) (direction : Direction) (tree : Tree) : Tree :=
  splitWide horizontal direction (annotate vertical tree)

end LatentGrammar.Treebank
