import LatentGrammar.Treebank.Binarization
import LatentGrammar.Proofs.Binarization.Places
import Mathlib.Data.List.DropRight

/-! How a binary tree is read back. Intermediate nodes are told apart by their labels; where each of
them is replaced by its children, what is left of a place is the constituent that the node belongs
to, with the siblings on both sides of the node. -/

namespace LatentGrammar.Treebank

/-- Labels that start like those of intermediate nodes. -/
def isMarked (label : String) : Bool := label.toList.head? == some '@'

def isIntermediate (tree : Tree) : Bool := !tree.isLeaf && isMarked tree.label

mutual

/-- Replaces every intermediate node by its children, from the bottom up. -/
def dissolve : Tree → List Tree
  | .node word [] => [.node word []]
  | .node label (first :: rest) =>
    if isMarked label then dissolve first ++ dissolveOf rest
    else [.node label (dissolve first ++ dissolveOf rest)]

def dissolveOf : List Tree → List Tree
  | [] => []
  | tree :: rest => dissolve tree ++ dissolveOf rest

end

/-- The constituent that a node belongs to, and the constituent's other children on both sides of
the node. -/
structure Surroundings where
  base : String
  before : List Tree
  after : List Tree

/-- The surroundings of the child with number `i`, from those of the node: the children of an
intermediate node belong to the constituent that the node belongs to. -/
def Surroundings.below (outer : Surroundings) (tree : Tree) (i : Nat) : Surroundings :=
  let before := (tree.children.take i).flatMap dissolve
  let after := (tree.children.drop (i + 1)).flatMap dissolve
  if isIntermediate tree then ⟨outer.base, outer.before ++ before, after ++ outer.after⟩
  else ⟨tree.label, before, after⟩

/-- The surroundings at a place of a tree that itself stands in `outer`. -/
def surroundings (outer : Surroundings) (tree : Tree) : List Nat → Surroundings
  | [] => outer
  | i :: path =>
    tree.children[i]?.elim outer fun child => surroundings (outer.below tree i) child path

theorem dissolveOf_eq (trees : List Tree) : dissolveOf trees = trees.flatMap dissolve := by
  induction trees with
  | nil => rfl
  | cons tree rest ih => rw [dissolveOf, ih, List.flatMap_cons]

theorem dissolve_eq (tree : Tree) :
    dissolve tree =
      if isIntermediate tree then tree.children.flatMap dissolve
      else [.node tree.label (tree.children.flatMap dissolve)] := by
  match tree with
  | .node word [] => rfl
  | .node label (first :: rest) =>
    rw [dissolve, dissolveOf_eq]
    simp [isIntermediate, Tree.isLeaf]

theorem dissolve_of_not_intermediate {tree : Tree} (whole : isIntermediate tree = false) :
    dissolve tree = [.node tree.label (tree.children.flatMap dissolve)] := by
  rw [dissolve_eq, whole, if_neg Bool.false_ne_true]

theorem isIntermediate_node {label : String} {children : List Tree} (marked : isMarked label = true)
    (wide : children ≠ []) : isIntermediate (.node label children) = true := by
  simp [isIntermediate, Tree.isLeaf, marked, wide]

theorem dissolve_node_of_marked {label : String} {children : List Tree}
    (marked : isMarked label = true) (wide : children ≠ []) :
    dissolve (.node label children) = children.flatMap dissolve := by
  rw [dissolve_eq, isIntermediate_node marked wide, if_pos rfl, Tree.children_node]

theorem dissolve_ne_nil (tree : Tree) : dissolve tree ≠ [] := by
  induction tree using Tree.induct with
  | node label children ih =>
    rw [dissolve_eq]
    split
    · next marked =>
      obtain ⟨first, rest, rfl⟩ : ∃ first rest, children = first :: rest := by
        cases children with
        | nil => cases marked
        | cons first rest => exact ⟨first, rest, rfl⟩
      simp [ih first (by simp)]
    · exact List.cons_ne_nil _ _

theorem words_dissolve (tree : Tree) : (dissolve tree).flatMap Tree.words = tree.words := by
  induction tree using Tree.induct with
  | node label children ih =>
    by_cases bare : children = []
    · subst bare
      simp [dissolve]
    · have inside : (children.flatMap dissolve).flatMap Tree.words =
          children.flatMap Tree.words := by
        rw [List.flatMap_assoc]
        exact List.flatMap_congr ih
      have wide : children.flatMap dissolve ≠ [] := by
        obtain ⟨first, rest, rfl⟩ := List.exists_cons_of_ne_nil bare
        simp [dissolve_ne_nil]
      rw [dissolve_eq, Tree.words_node label bare, Tree.children_node, Tree.label_node]
      split
      · exact inside
      · rw [List.flatMap_cons, List.flatMap_nil, List.append_nil, Tree.words_node label wide, inside]

/-- Children keep their labels where none of them is dissolved. -/
theorem labels_dissolve {trees : List Tree}
    (whole : ∀ tree ∈ trees, isIntermediate tree = false) :
    (trees.flatMap dissolve).map Tree.label = trees.map Tree.label := by
  induction trees with
  | nil => rfl
  | cons tree rest ih =>
    obtain ⟨here, later⟩ := List.forall_mem_cons.mp whole
    rw [List.flatMap_cons, dissolve_of_not_intermediate here, List.map_append, ih later]
    rfl

theorem flatMap_dissolve_split {children : List Tree} {i : Nat} {child : Tree}
    (inside : children[i]? = some child) :
    children.flatMap dissolve =
      (children.take i).flatMap dissolve ++ dissolve child ++
        (children.drop (i + 1)).flatMap dissolve := by
  obtain ⟨below, rfl⟩ := List.getElem?_eq_some_iff.mp inside
  conv_lhs => rw [← List.take_append_drop i children, List.drop_eq_getElem_cons below]
  rw [List.flatMap_append, List.flatMap_cons, List.append_assoc]

/-- What is left of the tree in its surroundings is all of `whole`, or the children of a
constituent of `whole`. -/
def Belongs (whole : Tree) (outer : Surroundings) (tree : Tree) : Prop :=
  (isIntermediate tree = false ∧ dissolve tree = [whole]) ∨
    ∃ path, whole.at? path = some (.node outer.base (outer.before ++ dissolve tree ++ outer.after))

theorem Belongs.below {whole : Tree} {outer : Surroundings} {tree child : Tree} {i : Nat}
    (belongs : Belongs whole outer tree) (inside : tree.children[i]? = some child) :
    Belongs whole (outer.below tree i) child := by
  have split := flatMap_dissolve_split inside
  refine .inr ?_
  unfold Surroundings.below
  cases marked : isIntermediate tree with
  | true =>
    obtain ⟨path, found⟩ := belongs.resolve_left fun plain => nomatch marked.symm.trans plain.1
    refine ⟨path, ?_⟩
    rw [found, dissolve_eq, marked, if_pos rfl, split, if_pos rfl]
    simp only [List.append_assoc]
  | false =>
    rw [if_neg Bool.false_ne_true, ← split]
    have left := dissolve_of_not_intermediate marked
    rcases belongs with ⟨-, same⟩ | ⟨path, found⟩
    · exact ⟨[], congrArg some (List.singleton_inj.mp (same.symm.trans left))⟩
    · exact Tree.exists_at?_of_mem found (by simp [left])

/-- What is left of a node that is replaced by its children stands between what is left of its
surroundings, as children of a constituent. -/
theorem Belongs.surroundings {whole : Tree} {outer : Surroundings} {tree node : Tree}
    (belongs : Belongs whole outer tree) {path : List Nat} (found : tree.at? path = some node) :
    Belongs whole (surroundings outer tree path) node := by
  induction path generalizing outer tree with
  | nil => exact Option.some.inj found ▸ belongs
  | cons i path ih =>
    obtain ⟨child, inside, found⟩ := Tree.at?_cons_eq_some_iff.mp found
    rw [Treebank.surroundings, inside, Option.elim_some]
    exact ih (belongs.below inside) found

end LatentGrammar.Treebank
