import LatentGrammar.Proofs.Binarization.Annotation
import LatentGrammar.Proofs.Binarization.Dissolving

/-! Binary trees hold everything that the annotated trees hold. A wide constituent hangs on a spine
of intermediate nodes in either direction; every intermediate label tells the constituent and the
nearest siblings that the spine has yet to attach, and dissolving the spines restores the tree. -/

namespace LatentGrammar.Treebank

/-- `@`, the label of the constituent, `->`, and the labels of siblings, each after `_`. -/
def intermediateLabel (base : String) (siblings : List String) : String :=
  "@" ++ base ++ "->" ++ String.join (siblings.map ("_" ++ ·))

/-- The nearest siblings on the side that is attached further up, the nearest standing last. -/
def remembered (horizontal : Nat) (direction : Direction) (place : Surroundings) : List String :=
  match direction with
  | .right => (place.before.rtake horizontal).map Tree.label
  | .left => (place.after.take horizontal).reverse.map Tree.label

theorem spineLabel_eq (horizontal : Nat) (base : String) (outside : List Tree) :
    spineLabel horizontal base outside =
      intermediateLabel base ((outside.rtake horizontal).map Tree.label) := by
  have grown (nearest : List Tree) (text : String) :
      nearest.foldl (fun text sibling => text ++ "_" ++ sibling.label) text =
        text ++ String.join ((nearest.map Tree.label).map ("_" ++ ·)) := by
    induction nearest generalizing text with
    | nil => simp
    | cons sibling rest ih =>
      rw [List.foldl_cons, ih, List.map_cons, List.map_cons, String.join_cons,
        String.append_assoc, String.append_assoc, String.append_assoc]
  exact grown _ _

theorem isMarked_spineLabel (horizontal : Nat) (base : String) (outside : List Tree) :
    isMarked (spineLabel horizontal base outside) = true := by
  simp [spineLabel_eq, intermediateLabel, isMarked]

section Spines

variable {horizontal : Nat} {direction : Direction} {base : String}

@[simp] theorem dissolve_spine (outside : List Tree) (left right : Tree) :
    dissolve (.node (spineLabel horizontal base outside) [left, right]) =
      dissolve left ++ dissolve right := by
  rw [dissolve_node_of_marked (isMarked_spineLabel _ _ _) (List.cons_ne_nil _ _)]
  simp

theorem dissolve_hangRight (before : List Tree) (first : Tree) (rest : List Tree) :
    dissolve (hangRight horizontal base before first rest) = (first :: rest).flatMap dissolve := by
  induction rest generalizing before first with
  | nil => simp [hangRight]
  | cons second rest ih =>
    rw [hangRight, dissolve_spine, ih, List.flatMap_cons, List.flatMap_cons, List.flatMap_cons]

theorem dissolve_hangLeft (spine : Tree) (rest : List Tree) :
    (hangLeft horizontal base spine rest).flatMap dissolve = (spine :: rest).flatMap dissolve := by
  fun_induction hangLeft horizontal base spine rest with
  | case1 => rfl
  | case2 => rfl
  | case3 spine next rest more ih => rw [ih, List.flatMap_cons, dissolve_spine]; simp

theorem dissolve_splitChildren (children : List Tree) :
    (splitChildren horizontal direction base children).flatMap dissolve =
      children.flatMap dissolve := by
  fun_cases splitChildren horizontal direction base children with
  | case1 first second third rest => simp [dissolve_hangRight]
  | case2 first second third rest => exact dissolve_hangLeft _ _
  | case3 => rfl

/-- No node has more than two children. -/
def Narrow (tree : Tree) : Prop := tree.Everywhere fun node => node.children.length ≤ 2

theorem narrow_pair {label : String} {left right : Tree} (first : Narrow left)
    (second : Narrow right) : Narrow (.node label [left, right]) :=
  Tree.everywhere_iff.mpr ⟨by simp, by simpa using ⟨first, second⟩⟩

theorem narrow_hangRight {before : List Tree} {first : Tree} {rest : List Tree}
    (narrow : ∀ child ∈ first :: rest, Narrow child) :
    Narrow (hangRight horizontal base before first rest) := by
  induction rest generalizing before first with
  | nil => exact narrow first (by simp)
  | cons second rest ih =>
    obtain ⟨here, later⟩ := List.forall_mem_cons.mp narrow
    exact narrow_pair here (ih later)

theorem narrow_hangLeft {spine : Tree} {rest : List Tree}
    (narrow : ∀ child ∈ spine :: rest, Narrow child) (label : String) :
    Narrow (.node label (hangLeft horizontal base spine rest)) := by
  fun_induction hangLeft horizontal base spine rest with
  | case1 spine => exact Tree.everywhere_iff.mpr ⟨by simp, narrow⟩
  | case2 spine last => exact Tree.everywhere_iff.mpr ⟨by simp, narrow⟩
  | case3 spine next rest more ih =>
    obtain ⟨here, later⟩ := List.forall_mem_cons.mp narrow
    obtain ⟨following, later⟩ := List.forall_mem_cons.mp later
    exact ih (List.forall_mem_cons.mpr ⟨narrow_pair here following, later⟩)

theorem narrow_splitChildren {children : List Tree} (narrow : ∀ child ∈ children, Narrow child)
    (label : String) : Narrow (.node label (splitChildren horizontal direction base children)) := by
  match children, direction with
  | [], _ | [_], _ | [_, _], _ => exact Tree.everywhere_iff.mpr ⟨by simp [splitChildren], narrow⟩
  | first :: second :: third :: rest, .right =>
    obtain ⟨here, later⟩ := List.forall_mem_cons.mp narrow
    exact narrow_pair here (narrow_hangRight later)
  | first :: second :: third :: rest, .left => exact narrow_hangLeft narrow label

variable (horizontal direction) in
/-- Every intermediate node tells its surroundings, if the tree stands in `outer`. -/
def Labelled (outer : Surroundings) (tree : Tree) : Prop :=
  ∀ path node, tree.at? path = some node → isIntermediate node = true →
    node.label = intermediateLabel (surroundings outer tree path).base
      (remembered horizontal direction (surroundings outer tree path))

variable (horizontal direction) in
/-- A constituent or word whose intermediate nodes tell their surroundings. -/
def Settled (tree : Tree) : Prop :=
  isIntermediate tree = false ∧ ∀ outer, Labelled horizontal direction outer tree

theorem labelled_iff {outer : Surroundings} {tree : Tree} :
    Labelled horizontal direction outer tree ↔
      (isIntermediate tree = true →
        tree.label = intermediateLabel outer.base (remembered horizontal direction outer)) ∧
      ∀ i child, tree.children[i]? = some child →
        Labelled horizontal direction (outer.below tree i) child := by
  constructor
  · intro labelled
    refine ⟨labelled [] tree rfl, fun i child inside path node found marked => ?_⟩
    have told := labelled (i :: path) node (Tree.at?_cons_eq_some_iff.mpr ⟨child, inside, found⟩)
      marked
    rwa [surroundings, inside, Option.elim_some] at told
  · rintro ⟨here, below⟩ path node found marked
    cases path with
    | nil =>
      cases found
      exact here marked
    | cons i path =>
      obtain ⟨child, inside, found⟩ := Tree.at?_cons_eq_some_iff.mp found
      rw [surroundings, inside, Option.elim_some]
      exact below i child inside path node found marked

theorem labelled_spine {outside : List Tree} {left right : Tree} {outer : Surroundings}
    (told : spineLabel horizontal base outside =
      intermediateLabel outer.base (remembered horizontal direction outer))
    (first : Labelled horizontal direction
      ⟨outer.base, outer.before, dissolve right ++ outer.after⟩ left)
    (second : Labelled horizontal direction
      ⟨outer.base, outer.before ++ dissolve left, outer.after⟩ right) :
    Labelled horizontal direction outer
      (.node (spineLabel horizontal base outside) [left, right]) := by
  refine labelled_iff.mpr ⟨fun _ => told, fun i child inside => ?_⟩
  rw [Surroundings.below,
    if_pos (isIntermediate_node (isMarked_spineLabel _ _ _) (List.cons_ne_nil _ _))]
  match i with
  | 0 =>
    cases inside
    simpa using first
  | 1 =>
    cases inside
    simpa using second
  | i + 2 => cases inside

theorem labelled_hangRight {before : List Tree} {first : Tree} {rest : List Tree}
    (passed : ∀ child ∈ before, isIntermediate child = false)
    (settled : ∀ child ∈ first :: rest, Settled horizontal .right child) :
    Labelled horizontal .right ⟨base, before.reverse.flatMap dissolve, []⟩
      (hangRight horizontal base before first rest) := by
  induction rest generalizing before first with
  | nil => exact (settled first (by simp)).2 _
  | cons second rest ih =>
    obtain ⟨here, later⟩ := List.forall_mem_cons.mp settled
    refine labelled_spine ?_ (here.2 _) ?_
    · have whole : ∀ child ∈ before.reverse, isIntermediate child = false := by simpa using passed
      have labels (outside : List Tree) :
          (outside.rtake horizontal).map Tree.label =
            (outside.map Tree.label).rtake horizontal := by
        simp [List.rtake, List.map_drop]
      rw [spineLabel_eq, remembered, labels, labels, labels_dissolve whole]
    · have next := ih (List.forall_mem_cons.mpr ⟨here.1, passed⟩) later
      rwa [List.reverse_cons, List.flatMap_append, List.flatMap_singleton] at next

theorem labelled_hangLeft {spine next : Tree} {rest : List Tree}
    (spined : Labelled horizontal .left ⟨base, [], (next :: rest).flatMap dissolve⟩ spine)
    (settled : ∀ child ∈ next :: rest, Settled horizontal .left child) :
    ∃ left right, hangLeft horizontal base spine (next :: rest) = [left, right] ∧
      Labelled horizontal .left ⟨base, [], dissolve right⟩ left ∧
      Settled horizontal .left right := by
  induction rest generalizing spine next with
  | nil => exact ⟨spine, next, rfl, by simpa using spined, settled next (by simp)⟩
  | cons later rest ih =>
    obtain ⟨here, settled⟩ := List.forall_mem_cons.mp settled
    refine ih (labelled_spine ?_ (by simpa using spined) (here.2 _)) settled
    have whole : ∀ child ∈ later :: rest, isIntermediate child = false :=
      fun child member => (settled child member).1
    have labels (outside : List Tree) :
        (outside.take horizontal).reverse.map Tree.label =
          ((outside.map Tree.label).take horizontal).reverse := by
      simp [List.map_take]
    rw [spineLabel_eq, remembered, labels, labels_dissolve whole, List.rtake_eq_reverse_take_reverse,
      List.reverse_reverse, labels]

theorem settled_of_forall {children : List Tree}
    (whole : isIntermediate (.node base children) = false)
    (labelled : ∀ i child, children[i]? = some child → Labelled horizontal direction
      ⟨base, (children.take i).flatMap dissolve, (children.drop (i + 1)).flatMap dissolve⟩ child) :
    Settled horizontal direction (.node base children) := by
  refine ⟨whole, fun outer => labelled_iff.mpr ⟨?_, fun i child inside => ?_⟩⟩
  · intro marked
    cases whole.symm.trans marked
  · rw [Surroundings.below, whole, if_neg Bool.false_ne_true]
    exact labelled i child inside

theorem settled_pair {left right : Tree} (plain : isMarked base = false)
    (first : Labelled horizontal direction ⟨base, [], dissolve right⟩ left)
    (second : Labelled horizontal direction ⟨base, dissolve left, []⟩ right) :
    Settled horizontal direction (.node base [left, right]) := by
  refine settled_of_forall plain fun i child inside => ?_
  match i with
  | 0 =>
    cases inside
    simpa using first
  | 1 =>
    cases inside
    simpa using second
  | i + 2 => cases inside

theorem settled_splitChildren {children : List Tree}
    (whole : isIntermediate (.node base children) = false)
    (settled : ∀ child ∈ children, Settled horizontal direction child) :
    Settled horizontal direction
      (.node base (splitChildren horizontal direction base children)) := by
  match children, direction with
  | [], _ | [_], _ | [_, _], _ =>
    exact settled_of_forall whole fun i child inside =>
      (settled child (List.mem_of_getElem? inside)).2 _
  | first :: second :: third :: rest, .right =>
    obtain ⟨here, later⟩ := List.forall_mem_cons.mp settled
    have passed : ∀ child ∈ [first], isIntermediate child = false :=
      List.forall_mem_singleton.mpr here.1
    have hung : Labelled horizontal .right ⟨base, [first].reverse.flatMap dissolve, []⟩
        (hangRight horizontal base [first] second (third :: rest)) :=
      labelled_hangRight passed later
    exact settled_pair whole (here.2 _) (by simpa using hung)
  | first :: second :: third :: rest, .left =>
    obtain ⟨here, later⟩ := List.forall_mem_cons.mp settled
    have spined : Labelled horizontal .left
        ⟨base, [], (second :: third :: rest).flatMap dissolve⟩ first := here.2 _
    obtain ⟨left, right, same, hung, last⟩ := labelled_hangLeft spined later
    rw [splitChildren, same]
    exact settled_pair whole hung (last.2 _)

end Spines

section Binary

variable {horizontal : Nat} {direction : Direction}

theorem splitWideOf_eq (trees : List Tree) :
    splitWideOf horizontal direction trees = trees.map (splitWide horizontal direction) := by
  induction trees with
  | nil => rfl
  | cons tree rest ih => rw [splitWideOf, ih, List.map_cons]

theorem splitWide_eq (tree : Tree) :
    splitWide horizontal direction tree =
      .node tree.label (splitChildren horizontal direction tree.label
        (tree.children.map (splitWide horizontal direction))) := by
  match tree with
  | .node word [] => rfl
  | .node label (first :: rest) => rw [splitWide, splitWideOf_eq]; rfl

theorem narrow_splitWide (tree : Tree) : Narrow (splitWide horizontal direction tree) := by
  induction tree using Tree.induct with
  | node label children ih =>
    rw [splitWide_eq]
    exact narrow_splitChildren (List.forall_mem_map.mpr ih) label

/-- No node would be taken for an intermediate one. -/
def Whole (tree : Tree) : Prop := tree.Everywhere fun node => isIntermediate node = false

theorem whole_of_plain {tree : Tree} (plain : ∀ label ∈ tree.categories, isMarked label = false) :
    Whole tree := by
  intro path node found
  cases leaf : node.isLeaf with
  | true => simp [isIntermediate, leaf]
  | false =>
    rw [isIntermediate, plain _ (Tree.mem_categories_iff.mpr ⟨path, node, found, leaf, rfl⟩)]
    exact Bool.and_false _

/-- The mark is only ever the first character, which annotation keeps. -/
theorem isMarked_intercalate {label : String} (plain : isMarked label = false)
    (ancestors : List String) : isMarked ("^".intercalate (label :: ancestors)) = false := by
  cases ancestors with
  | nil => rwa [String.intercalate_singleton]
  | cons nearest rest =>
    rw [String.intercalate_cons_cons]
    cases characters : label.toList with
    | nil => simp [isMarked, characters]
    | cons first later => simpa [isMarked, characters] using plain

theorem isMarked_notedLabel {vertical : Nat} {tree node : Tree} {path : List Nat}
    (plain : isMarked node.label = false) : isMarked (notedLabel vertical tree path node) = false := by
  unfold notedLabel
  split
  · exact plain
  · exact isMarked_intercalate plain _

theorem Whole.annotate {tree : Tree} (whole : Whole tree) (vertical : Nat) :
    Whole (annotate vertical tree) := by
  have marked_iff (node : Tree) : isIntermediate node = false ↔
      (node.children.length ≠ 0 → isMarked node.label = false) := by
    cases node with
    | node label children => cases children <;> simp [isIntermediate, Tree.isLeaf]
  intro path noted found
  have same := annotate_at? vertical tree path
  rw [found, Option.map_some] at same
  obtain ⟨node, found, here⟩ := Option.map_eq_some_iff.mp same.symm
  obtain ⟨label, width⟩ := Prod.mk.inj here
  rw [marked_iff, ← label, ← width]
  exact fun wide => isMarked_notedLabel ((marked_iff node).mp (whole path node found) wide)

theorem settled_splitWide {tree : Tree} (whole : Whole tree) :
    Settled horizontal direction (splitWide horizontal direction tree) := by
  induction tree using Tree.induct with
  | node label children ih =>
    obtain ⟨here, below⟩ := Tree.everywhere_iff.mp whole
    rw [splitWide_eq]
    refine settled_splitChildren ?_ (List.forall_mem_map.mpr fun child member =>
      ih child member (below child member))
    simpa [isIntermediate, Tree.isLeaf] using here

theorem dissolve_splitWide {tree : Tree} (whole : Whole tree) :
    dissolve (splitWide horizontal direction tree) = [tree] := by
  induction tree using Tree.induct with
  | node label children ih =>
    obtain ⟨-, below⟩ := Tree.everywhere_iff.mp whole
    have restored : (children.map (splitWide horizontal direction)).flatMap dissolve = children := by
      rw [List.flatMap_map, List.flatMap_congr fun child member => ih child member (below child member),
        List.flatMap_singleton']
    rw [dissolve_of_not_intermediate (settled_splitWide whole).1, splitWide_eq]
    simp only [Tree.label_node, Tree.children_node, dissolve_splitChildren, restored]

end Binary

/-- The tree is a binary form of another one: narrow, with the same words, restored to the annotated
tree by dissolving it, and with intermediate labels that tell what surrounds a node. -/
structure BinaryForm (vertical horizontal : Nat) (direction : Direction) (tree binary : Tree) :
    Prop where
  narrow : Narrow binary
  words_eq : binary.words = tree.words
  dissolves : dissolve binary = [annotate vertical tree]
  noted : ∀ path,
    ((annotate vertical tree).at? path).map (fun node => (node.label, node.children.length)) =
      (tree.at? path).map fun node => (notedLabel vertical tree path node, node.children.length)
  unannotated : vertical ≤ 1 → dissolve binary = [tree]
  belongs : ∀ outer path node, binary.at? path = some node → isIntermediate node = true →
    ∃ constituent, (annotate vertical tree).at? constituent =
      some (.node (surroundings outer binary path).base
        ((surroundings outer binary path).before ++ dissolve node ++
          (surroundings outer binary path).after))
  labels : ∀ outer path node, binary.at? path = some node → isIntermediate node = true →
    node.label = intermediateLabel (surroundings outer binary path).base
      (remembered horizontal direction (surroundings outer binary path))

/-- Binarization is reversible if no category looks like an intermediate label. -/
theorem binarize_binaryForm {tree : Tree}
    (plain : ∀ label ∈ tree.categories, isMarked label = false) (vertical horizontal : Nat)
    (direction : Direction) :
    BinaryForm vertical horizontal direction tree (binarize vertical horizontal direction tree) := by
  have whole := (whole_of_plain plain).annotate vertical
  have dissolves : dissolve (binarize vertical horizontal direction tree) =
      [annotate vertical tree] := dissolve_splitWide whole
  have settled : Settled horizontal direction (binarize vertical horizontal direction tree) :=
    settled_splitWide whole
  refine ⟨narrow_splitWide _, ?_, dissolves, annotate_at? vertical tree, ?_, ?_, settled.2⟩
  · rw [← words_dissolve, dissolves, List.flatMap_singleton, words_annotate]
  · intro low
    rw [dissolves, annotate_of_le_one low]
  · intro outer path node found marked
    have belongs : Belongs (annotate vertical tree) outer
        (binarize vertical horizontal direction tree) := .inl ⟨settled.1, dissolves⟩
    exact (belongs.surroundings found).resolve_left fun whole => nomatch marked.symm.trans whole.1

/-- A noun phrase of four words. -/
def widePhrase : Tree :=
  .node "ROOT" [.node "NP" [.node "DT" [.leaf "a"], .node "JJ" [.leaf "big"],
    .node "JJ" [.leaf "red"], .node "NN" [.leaf "dog"]]]

theorem widePhrase_binaryForm :
    (∀ label ∈ widePhrase.categories, isMarked label = false) ∧
      BinaryForm 2 1 .left widePhrase (binarize 2 1 .left widePhrase) ∧
      (binarize 2 1 .left widePhrase).render =
        "(ROOT (NP^ROOT (@NP^ROOT->_NN (@NP^ROOT->_JJ (DT a) (JJ big)) (JJ red)) (NN dog)))" :=
  have plain : ∀ label ∈ widePhrase.categories, isMarked label = false := by decide
  ⟨plain, binarize_binaryForm plain 2 1 .left, by decide⟩

end LatentGrammar.Treebank
