import LatentGrammar.Treebank.Binarization
import LatentGrammar.Proofs.Binarization.Places

namespace LatentGrammar.Treebank

/-- The label that the node at a place of the tree has after annotation of order `vertical`. -/
def notedLabel (vertical : Nat) (tree : Tree) (path : List Nat) (node : Tree) : String :=
  if node.isLeaf || node.isPreterminal then node.label
  else "^".intercalate (node.label :: (tree.ancestors path).take (vertical - 1))

theorem annotatedLabel_eq (label : String) (ancestors : List String) (count : Nat) :
    annotatedLabel label ancestors count = "^".intercalate (label :: ancestors.take count) := by
  unfold annotatedLabel
  generalize ancestors.take count = nearest
  induction nearest generalizing label with
  | nil => simp
  | cons first rest ih =>
    rw [List.foldl_cons, ih, String.intercalate_cons_cons, String.append_assoc,
      String.intercalate_cons_append, String.intercalate_cons_append, String.append_assoc]

theorem annotateAncestorsOf_eq (count : Nat) (ancestors : List String) (trees : List Tree) :
    annotateAncestorsOf count ancestors trees = trees.map (annotateAncestors count ancestors) := by
  induction trees with
  | nil => rfl
  | cons tree rest ih => rw [annotateAncestorsOf, ih, List.map_cons]

/-- Every node keeps its number of children; a word below a preterminal is annotated to itself. -/
theorem annotateAncestors_eq (count : Nat) (ancestors : List String) (tree : Tree) :
    annotateAncestors count ancestors tree =
      .node (if tree.isLeaf || tree.isPreterminal then tree.label
          else "^".intercalate (tree.label :: ancestors.take count))
        (tree.children.map (annotateAncestors count (tree.label :: ancestors))) := by
  fun_cases annotateAncestors count ancestors tree with
  | case1 word => rfl
  | case2 tag word => rfl
  | case3 label children bare single =>
    have phrasal : ((Tree.node label children).isLeaf ||
        (Tree.node label children).isPreterminal) = false := by
      match children with
      | [] => exact absurd rfl bare
      | [.node word []] => exact absurd rfl (single word)
      | [.node _ (_ :: _)] => rfl
      | _ :: _ :: _ => rfl
    rw [phrasal, annotateAncestorsOf_eq, annotatedLabel_eq]
    rfl

theorem annotate_eq (vertical : Nat) (tree : Tree) :
    annotate vertical tree = annotateAncestors (vertical - 1) [] tree := by
  rw [annotate, annotateAncestorsOf_eq, annotateAncestors_eq]
  simp

/-- Labels and numbers of children below a node whose ancestors are given. -/
theorem annotateAncestors_at? (count : Nat) (ancestors : List String) (tree : Tree)
    (path : List Nat) :
    ((annotateAncestors count ancestors tree).at? path).map
        (fun node => (node.label, node.children.length)) =
      (tree.at? path).map fun node =>
        (if node.isLeaf || node.isPreterminal then node.label
          else "^".intercalate (node.label :: (tree.ancestors path ++ ancestors).take count),
        node.children.length) := by
  induction path generalizing tree ancestors with
  | nil =>
    rw [annotateAncestors_eq]
    simp [Tree.ancestors, Tree.at?]
  | cons i path ih =>
    rw [annotateAncestors_eq, Tree.at?, Tree.at?, Tree.children_node, List.getElem?_map]
    cases inside : tree.children[i]? with
    | none => rfl
    | some child =>
      simp only [Option.map_some, Option.bind_some, ih, Tree.ancestors, inside, Option.elim_some,
        List.append_assoc, List.singleton_append]

/-- Annotation keeps the shape of a tree and labels every place as `notedLabel` says. -/
theorem annotate_at? (vertical : Nat) (tree : Tree) (path : List Nat) :
    ((annotate vertical tree).at? path).map (fun node => (node.label, node.children.length)) =
      (tree.at? path).map fun node =>
        (notedLabel vertical tree path node, node.children.length) := by
  rw [annotate_eq, annotateAncestors_at?, List.append_nil]
  rfl

theorem annotateAncestors_zero (ancestors : List String) (tree : Tree) :
    annotateAncestors 0 ancestors tree = tree := by
  induction tree using Tree.induct generalizing ancestors with
  | node label children ih =>
    have kept : children.map (annotateAncestors 0 (label :: ancestors)) = children := by
      calc children.map (annotateAncestors 0 (label :: ancestors))
          = children.map id := List.map_congr_left fun child member => ih child member _
        _ = children := children.map_id
    rw [annotateAncestors_eq]
    simp [kept]

theorem annotate_of_le_one {vertical : Nat} (low : vertical ≤ 1) (tree : Tree) :
    annotate vertical tree = tree := by
  rw [annotate_eq, Nat.sub_eq_zero_of_le low, annotateAncestors_zero]

theorem words_annotateAncestors (count : Nat) (ancestors : List String) (tree : Tree) :
    (annotateAncestors count ancestors tree).words = tree.words := by
  induction tree using Tree.induct generalizing ancestors with
  | node label children ih =>
    by_cases bare : children = []
    · subst bare
      rfl
    · rw [annotateAncestors_eq, Tree.words_node _ (by simpa using bare), Tree.words_node _ bare,
        Tree.children_node, List.flatMap_map]
      exact List.flatMap_congr fun child member => ih child member _

theorem words_annotate (vertical : Nat) (tree : Tree) :
    (annotate vertical tree).words = tree.words := by
  rw [annotate_eq, words_annotateAncestors]

end LatentGrammar.Treebank
