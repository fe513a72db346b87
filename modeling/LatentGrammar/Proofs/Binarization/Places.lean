import LatentGrammar.Tree
import Mathlib.Data.List.Basic

namespace LatentGrammar.Tree

@[simp] theorem label_node (label : String) (children : List Tree) :
    (node label children).label = label := rfl

@[simp] theorem children_node (label : String) (children : List Tree) :
    (node label children).children = children := rfl

@[elab_as_elim]
theorem induct {motive : Tree → Prop}
    (node : ∀ label children, (∀ child ∈ children, motive child) → motive (.node label children))
    (tree : Tree) : motive tree :=
  Tree.rec (motive_1 := motive) (motive_2 := fun trees => ∀ tree ∈ trees, motive tree)
    node (fun _ member => nomatch member)
    (fun _ _ first rest => List.forall_mem_cons.mpr ⟨first, rest⟩) tree

theorem wordsOf_eq (trees : List Tree) : wordsOf trees = trees.flatMap words := by
  induction trees with
  | nil => rfl
  | cons tree rest ih => rw [wordsOf, ih, List.flatMap_cons]

theorem words_node (label : String) {children : List Tree} (wide : children ≠ []) :
    (node label children).words = children.flatMap words := by
  obtain ⟨first, rest, rfl⟩ := List.exists_cons_of_ne_nil wide
  rw [words, wordsOf_eq, List.flatMap_cons]

theorem categoriesOf_eq (trees : List Tree) : categoriesOf trees = trees.flatMap categories := by
  induction trees with
  | nil => rfl
  | cons tree rest ih => rw [categoriesOf, ih, List.flatMap_cons]

theorem categories_node (label : String) {children : List Tree} (wide : children ≠ []) :
    (node label children).categories = label :: children.flatMap categories := by
  obtain ⟨first, rest, rfl⟩ := List.exists_cons_of_ne_nil wide
  rw [categories, categoriesOf_eq, List.flatMap_cons]

theorem isLeaf_iff {tree : Tree} : tree.isLeaf = true ↔ ∃ word, tree = leaf word := by
  cases tree with
  | node label children => simp [isLeaf, leaf]

theorem isPreterminal_iff {tree : Tree} :
    tree.isPreterminal = true ↔ ∃ word, tree.children = [leaf word] := by
  cases tree with
  | node label children =>
    match children with
    | [] => simp [isPreterminal]
    | [child] =>
      rw [isPreterminal, children_node, isLeaf_iff]
      simp only [List.singleton_inj]
    | _ :: _ :: _ => simp [isPreterminal]

/-- A preterminal is a tag; the tags of other trees are those of the children. -/
theorem tags_eq (tree : Tree) :
    tree.tags = if tree.isPreterminal then [tree.label] else tree.children.flatMap tags := by
  have tagsOf_eq (trees : List Tree) : tagsOf trees = trees.flatMap tags := by
    induction trees with
    | nil => rfl
    | cons tree rest ih => rw [tagsOf, ih, List.flatMap_cons]
  fun_cases tags tree with
  | case1 label word => rfl
  | case2 label children several =>
    have phrasal : ¬(node label children).isPreterminal = true := by
      rw [isPreterminal_iff]
      rintro ⟨word, rfl⟩
      exact several word rfl
    rw [if_neg phrasal, tagsOf_eq, children_node]

/-- The subtree at the end of a path of child numbers. -/
def at? (tree : Tree) : List Nat → Option Tree
  | [] => some tree
  | i :: path => tree.children[i]?.bind fun child => child.at? path

/-- The labels of the nodes that a path passes before its end, the last one first. -/
def ancestors (tree : Tree) : List Nat → List String
  | [] => []
  | i :: path =>
    (tree.children[i]?.elim [] fun child => child.ancestors path) ++ [tree.label]

/-- The property holds of the subtree at every place. -/
def Everywhere (property : Tree → Prop) (tree : Tree) : Prop :=
  ∀ path node, tree.at? path = some node → property node

/-- The property holds of the subtree at some place. -/
def Somewhere (property : Tree → Prop) (tree : Tree) : Prop :=
  ∃ path node, tree.at? path = some node ∧ property node

theorem at?_cons_eq_some_iff {tree node : Tree} {i : Nat} {path : List Nat} :
    tree.at? (i :: path) = some node ↔
      ∃ child, tree.children[i]? = some child ∧ child.at? path = some node := by
  rw [at?, Option.bind_eq_some_iff]

theorem at?_append (tree : Tree) (path further : List Nat) :
    tree.at? (path ++ further) = (tree.at? path).bind fun node => node.at? further := by
  induction path generalizing tree with
  | nil => rfl
  | cons i path ih =>
    rw [List.cons_append, at?, at?]
    cases tree.children[i]? with
    | none => rfl
    | some child => exact ih child

theorem exists_at?_of_mem {tree node child : Tree} {path : List Nat}
    (found : tree.at? path = some node) (member : child ∈ node.children) :
    ∃ further, tree.at? further = some child := by
  obtain ⟨i, here⟩ := List.mem_iff_getElem?.mp member
  refine ⟨path ++ [i], ?_⟩
  rw [at?_append, found, Option.bind_some, at?, here]
  rfl

theorem everywhere_iff {property : Tree → Prop} {tree : Tree} :
    tree.Everywhere property ↔
      property tree ∧ ∀ child ∈ tree.children, child.Everywhere property := by
  constructor
  · intro everywhere
    refine ⟨everywhere [] tree rfl, fun child member path node found => ?_⟩
    obtain ⟨i, here⟩ := List.mem_iff_getElem?.mp member
    exact everywhere (i :: path) node (at?_cons_eq_some_iff.mpr ⟨child, here, found⟩)
  · rintro ⟨here, below⟩ path node found
    cases path with
    | nil => exact Option.some.inj found ▸ here
    | cons i path =>
      obtain ⟨child, inside, found⟩ := at?_cons_eq_some_iff.mp found
      exact below child (List.mem_of_getElem? inside) path node found

theorem somewhere_iff {property : Tree → Prop} {tree : Tree} :
    tree.Somewhere property ↔
      property tree ∨ ∃ child ∈ tree.children, child.Somewhere property := by
  constructor
  · rintro ⟨_ | ⟨i, path⟩, node, found, holds⟩
    · exact .inl (Option.some.inj found ▸ holds)
    · obtain ⟨child, here, found⟩ := at?_cons_eq_some_iff.mp found
      exact .inr ⟨child, List.mem_of_getElem? here, path, node, found, holds⟩
  · rintro (holds | ⟨child, member, path, node, found, holds⟩)
    · exact ⟨[], tree, rfl, holds⟩
    · obtain ⟨i, here⟩ := List.mem_iff_getElem?.mp member
      exact ⟨i :: path, node, at?_cons_eq_some_iff.mpr ⟨child, here, found⟩, holds⟩

theorem mem_categories_iff {label : String} {tree : Tree} :
    label ∈ tree.categories ↔
      tree.Somewhere fun node => node.isLeaf = false ∧ node.label = label := by
  induction tree using induct with
  | node top children ih =>
    rw [somewhere_iff]
    by_cases bare : children = []
    · subst bare
      simp [categories, isLeaf]
    · have top_iff : label = top ↔ (node top children).isLeaf = false ∧ top = label := by
        simp [isLeaf, bare, @eq_comm _ label]
      have inside := exists_congr fun child : Tree => and_congr_right (ih child)
      rw [categories_node top bare, List.mem_cons, List.mem_flatMap, inside, top_iff]
      rfl

theorem mem_tags_iff {label : String} {tree : Tree} :
    label ∈ tree.tags ↔
      tree.Somewhere fun node => node.isPreterminal = true ∧ node.label = label := by
  induction tree using induct with
  | node top children ih =>
    have inside := exists_congr fun child : Tree => and_congr_right (ih child)
    rw [somewhere_iff, children_node, ← inside, tags_eq]
    split
    · next single =>
      obtain ⟨word, only⟩ := isPreterminal_iff.mp single
      rw [children_node] at only
      subst only
      have none : (leaf word).tags = [] := rfl
      simp [none, single, @eq_comm _ label]
    · next several => simp [several]

end LatentGrammar.Tree
