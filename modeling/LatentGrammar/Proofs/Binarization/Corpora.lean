import LatentGrammar.Proofs.Binarization.Categories
import LatentGrammar.Proofs.Binarization.Spines
import LatentGrammar.Proofs.HeldOut.Likelihood

namespace LatentGrammar

variable {α : Type} [Scalar α]

namespace Tree

/-- The children are a single word, or constituents only. -/
def Unmixed (node : Tree) : Prop :=
  node.isPreterminal = true ∨ ∀ child ∈ node.children, child.isLeaf = false

/-- A constituent with words under its preterminals only. -/
def Annotatable (tree : Tree) : Prop := tree.isLeaf = false ∧ tree.Everywhere Unmixed

theorem annotatable_node_iff {label : String} {children : List Tree} :
    (node label children).Annotatable ↔
      (∃ word, children = [leaf word]) ∨
        children ≠ [] ∧ ∀ child ∈ children, child.Annotatable := by
  have top : (node label children).isLeaf = false ↔ children ≠ [] := by simp [isLeaf]
  rw [Annotatable, everywhere_iff, Unmixed, isPreterminal_iff, children_node, top]
  constructor
  · rintro ⟨wide, single | constituents, below⟩
    · exact .inl single
    · exact .inr ⟨wide, fun child member => ⟨constituents child member, below child member⟩⟩
  · rintro (⟨word, rfl⟩ | ⟨wide, each⟩)
    · have alone : (leaf word).Everywhere Unmixed :=
        everywhere_iff.mpr ⟨.inr (List.forall_mem_nil _), List.forall_mem_nil _⟩
      exact ⟨List.cons_ne_nil _ _, .inl ⟨word, rfl⟩, List.forall_mem_singleton.mpr alone⟩
    · exact ⟨wide, .inr fun child member => (each child member).1,
        fun child member => (each child member).2⟩

/-- Nothing but the shape decides. -/
theorem annotatable_map_iff {f : Tree → Tree} {label other : String} {children : List Tree}
    (leaves : ∀ child ∈ children, (f child).isLeaf = child.isLeaf)
    (kept : ∀ child ∈ children, (f child).Annotatable ↔ child.Annotatable) :
    (node label (children.map f)).Annotatable ↔ (node other children).Annotatable := by
  have single : (∃ word, children.map f = [leaf word]) ↔ ∃ word, children = [leaf word] := by
    match children with
    | [] | _ :: _ :: _ => simp
    | [child] =>
      have alike := leaves child (List.mem_singleton_self child)
      simp only [List.map_singleton, List.singleton_inj, ← isLeaf_iff, alike]
  rw [annotatable_node_iff, annotatable_node_iff, single, List.forall_mem_map]
  simp only [ne_eq, List.map_eq_nil_iff]
  exact or_congr_right (and_congr_right fun _ => forall₂_congr kept)

end Tree

namespace Treebank

variable {horizontal : Nat} {direction : Direction} {base : String}

theorem annotatable_pair_iff {label : String} {left right : Tree} :
    (Tree.node label [left, right]).Annotatable ↔ left.Annotatable ∧ right.Annotatable := by
  simp [Tree.annotatable_node_iff]

theorem annotatable_hangRight_iff {before : List Tree} {first : Tree} {rest : List Tree} :
    (hangRight horizontal base before first rest).Annotatable ↔
      ∀ child ∈ first :: rest, child.Annotatable := by
  induction rest generalizing before first with
  | nil => simp [hangRight]
  | cons second rest ih => rw [hangRight, annotatable_pair_iff, ih, List.forall_mem_cons (a := first)]

theorem hangLeft_eq_pair (spine next : Tree) (rest : List Tree) :
    ∃ left right, hangLeft horizontal base spine (next :: rest) = [left, right] := by
  induction rest generalizing spine next with
  | nil => exact ⟨spine, next, rfl⟩
  | cons later rest ih => exact ih _ later

theorem annotatable_hangLeft_iff {spine : Tree} {rest : List Tree} :
    (∀ child ∈ hangLeft horizontal base spine rest, child.Annotatable) ↔
      ∀ child ∈ spine :: rest, child.Annotatable := by
  fun_induction hangLeft horizontal base spine rest with
  | case1 => rfl
  | case2 => rfl
  | case3 spine next rest more ih =>
    rw [ih, List.forall_mem_cons, annotatable_pair_iff, List.forall_mem_cons, List.forall_mem_cons,
      and_assoc]

/-- Splitting a wide constituent puts a word beside something else if there was one before. -/
theorem annotatable_splitChildren_iff {label : String} {children : List Tree} :
    (Tree.node label (splitChildren horizontal direction base children)).Annotatable ↔
      (Tree.node label children).Annotatable := by
  match children, direction with
  | [], _ | [_], _ | [_, _], _ => rfl
  | first :: second :: third :: rest, .right =>
    rw [splitChildren, annotatable_pair_iff, annotatable_hangRight_iff]
    simp [Tree.annotatable_node_iff]
  | first :: second :: third :: rest, .left =>
    have all : (∀ child ∈ hangLeft horizontal base first (second :: third :: rest),
        child.Annotatable) ↔ ∀ child ∈ first :: second :: third :: rest, child.Annotatable :=
      annotatable_hangLeft_iff
    obtain ⟨left, right, same⟩ : ∃ left right,
        hangLeft horizontal base first (second :: third :: rest) = [left, right] :=
      hangLeft_eq_pair first second (third :: rest)
    rw [same] at all
    rw [splitChildren, same, annotatable_pair_iff, Tree.annotatable_node_iff, ← all]
    simp

theorem isLeaf_splitWide (tree : Tree) :
    (splitWide horizontal direction tree).isLeaf = tree.isLeaf := by
  have kept (label : String) (children : List Tree) :
      (splitChildren horizontal direction label children).isEmpty = children.isEmpty := by
    match children, direction with
    | [], _ | [_], _ | [_, _], _ | _ :: _ :: _ :: _, .right => rfl
    | first :: second :: third :: rest, .left =>
      obtain ⟨left, right, same⟩ : ∃ left right,
          hangLeft horizontal label first (second :: third :: rest) = [left, right] :=
        hangLeft_eq_pair first second (third :: rest)
      rw [splitChildren, same]
      rfl
  rw [splitWide_eq, Tree.isLeaf, Tree.children_node, kept, List.isEmpty_map, Tree.isLeaf]

theorem annotatable_splitWide_iff {tree : Tree} :
    (splitWide horizontal direction tree).Annotatable ↔ tree.Annotatable := by
  induction tree using Tree.induct with
  | node label children ih =>
    rw [splitWide_eq, annotatable_splitChildren_iff]
    exact Tree.annotatable_map_iff (fun child _ => isLeaf_splitWide child) ih

theorem annotatable_annotateAncestors_iff {count : Nat} {ancestors : List String} {tree : Tree} :
    (annotateAncestors count ancestors tree).Annotatable ↔ tree.Annotatable := by
  induction tree using Tree.induct generalizing ancestors with
  | node label children ih =>
    rw [annotateAncestors_eq]
    refine Tree.annotatable_map_iff (fun child _ => ?_) fun child member => ih child member
    rw [annotateAncestors_eq]
    simp [Tree.isLeaf]

theorem isLeaf_binarize {vertical : Nat} (tree : Tree) :
    (binarize vertical horizontal direction tree).isLeaf = tree.isLeaf := by
  rw [binarize, isLeaf_splitWide, annotate_eq, annotateAncestors_eq]
  simp [Tree.isLeaf]

theorem annotatable_binarize_iff {vertical : Nat} {tree : Tree} :
    (binarize vertical horizontal direction tree).Annotatable ↔ tree.Annotatable := by
  rw [binarize, annotatable_splitWide_iff, annotate_eq, annotatable_annotateAncestors_iff]

end Treebank

namespace LatentTree

variable {substates : List Nat} {vocabulary : Vocabulary}

/-- The label has a number, and the memory holds scores for its substates. -/
def Supplied (substates : List Nat) (vocabulary : Vocabulary) (label : String) : Prop :=
  ∃ state count, vocabulary.id? label = some state ∧ substates[state]? = some count ∧
    count < Word.tableLimit

omit [Scalar α] in
theorem id_eq_ok_iff {label : String} {state : Nat} :
    vocabulary.id label = .ok state ↔ vocabulary.id? label = some state := by
  unfold Vocabulary.id
  cases vocabulary.id? label <;> simp

theorem lt_of_zeros {count : Nat} {scores : NodeScores α}
    (made : NodeScores.zeros count = .ok scores) : count < Word.tableLimit := by
  obtain ⟨vector, filled, -⟩ := bind_eq_ok_iff.mp made
  obtain ⟨values, filled, -⟩ := bind_eq_ok_iff.mp filled
  exact (fill_eq_ok_iff.mp filled).1

theorem exists_zeros_of_lt {count : Nat} (room : count < Word.tableLimit) :
    ∃ scores : NodeScores α, NodeScores.zeros count = .ok scores :=
  ⟨_, by simp [NodeScores.zeros, ScaledVector.zeros, fill_eq_ok_iff.mpr ⟨room, rfl⟩]; rfl⟩

theorem supplied_of_zeros {label : String} {state count : Nat} {scores : NodeScores α}
    (known : vocabulary.id label = .ok state) (counted : countOf substates state label = .ok count)
    (made : NodeScores.zeros count = .ok scores) : Supplied substates vocabulary label :=
  ⟨state, count, id_eq_ok_iff.mp known, countOf_eq_ok_iff.mp counted, lt_of_zeros made⟩

/-- A tree for which there is a latent tree has words below preterminals only, and categories that
are all supplied. -/
theorem annotatable_of_ofTree {tree : Tree} {latent : LatentTree α}
    (built : ofTree substates vocabulary tree = .ok latent) :
    tree.Annotatable ∧ ∀ label ∈ tree.categories, Supplied substates vocabulary label := by
  induction tree using ofTree.induct generalizing latent with
  | case1 label children ih =>
    rw [ofTree] at built
    obtain ⟨state, known, built⟩ := bind_eq_ok_iff.mp built
    obtain ⟨count, counted, built⟩ := bind_eq_ok_iff.mp built
    -- Without children, over one word or one constituent, over two nodes or more.
    rcases children with _ | ⟨⟨first, _ | ⟨inner, more⟩⟩, _ | ⟨second, _ | ⟨third, rest⟩⟩⟩
    · cases built
    · obtain ⟨scores, fresh, -⟩ := bind_eq_ok_iff.mp built
      refine ⟨Tree.annotatable_node_iff.mpr (.inl ⟨first, rfl⟩), ?_⟩
      exact List.forall_mem_singleton.mpr (supplied_of_zeros known counted fresh)
    · cases built
    · cases built
    · obtain ⟨scores, fresh, built⟩ := bind_eq_ok_iff.mp built
      obtain ⟨child, below, -⟩ := bind_eq_ok_iff.mp built
      obtain ⟨annotatable, supplied⟩ := ih below
      refine ⟨Tree.annotatable_node_iff.mpr (.inr ⟨List.cons_ne_nil _ _, by simpa using annotatable⟩), ?_⟩
      rw [Tree.categories_node _ (List.cons_ne_nil _ _), List.flatMap_singleton]
      exact List.forall_mem_cons.mpr ⟨supplied_of_zeros known counted fresh, supplied⟩
    · change (if _ then _ else _) = _ at built
      split at built
      · cases built
      · obtain ⟨scores, fresh, built⟩ := bind_eq_ok_iff.mp built
        obtain ⟨left, leftBelow, built⟩ := bind_eq_ok_iff.mp built
        obtain ⟨right, rightBelow, -⟩ := bind_eq_ok_iff.mp built
        obtain ⟨leftSound, leftSupplied⟩ := ih.1 leftBelow
        obtain ⟨rightSound, rightSupplied⟩ := ih.2 rightBelow
        refine ⟨Treebank.annotatable_pair_iff.mpr ⟨leftSound, rightSound⟩, ?_⟩
        rw [Tree.categories_node _ (List.cons_ne_nil _ _), List.flatMap_cons, List.flatMap_singleton]
        exact List.forall_mem_cons.mpr ⟨supplied_of_zeros known counted fresh,
          List.forall_mem_append.mpr ⟨leftSupplied, rightSupplied⟩⟩
    · cases built

theorem exists_ofTree {tree : Tree} (narrow : Treebank.Narrow tree) (sound : tree.Annotatable)
    (supplied : ∀ label ∈ tree.categories, Supplied substates vocabulary label) :
    ∃ latent : LatentTree α, ofTree substates vocabulary tree = .ok latent := by
  induction tree using ofTree.induct with
  | case1 label children ih =>
    obtain ⟨width, narrow⟩ := Tree.everywhere_iff.mp narrow
    have wide : children ≠ [] := by simpa [Tree.isLeaf] using sound.1
    rw [Tree.categories_node label wide, List.forall_mem_cons, List.forall_mem_flatMap] at supplied
    obtain ⟨here, below⟩ := supplied
    obtain ⟨state, count, known, found, room⟩ := here
    obtain ⟨scores, made⟩ := exists_zeros_of_lt (α := α) room
    rw [ofTree, id_eq_ok_iff.mpr known, ok_bind, countOf_eq_ok_iff.mpr found, ok_bind]
    rcases Tree.annotatable_node_iff.mp sound with ⟨word, rfl⟩ | ⟨-, each⟩
    · exact ⟨_, by dsimp only [Tree.leaf]; rw [made]; rfl⟩
    · rcases children with _ | ⟨⟨inner, _ | ⟨first, more⟩⟩, siblings⟩
      · exact absurd rfl wide
      · cases (each _ List.mem_cons_self).1
      rcases siblings with _ | ⟨right, _ | ⟨third, rest⟩⟩
      · obtain ⟨child, success⟩ := ih (narrow _ (List.mem_singleton_self _))
          (each _ (List.mem_singleton_self _)) (below _ (List.mem_singleton_self _))
        dsimp only
        rw [made, ok_bind, success]
        exact ⟨_, rfl⟩
      · have last : right ∈ [.node inner (first :: more), right] :=
          List.mem_cons_of_mem _ (List.mem_singleton_self _)
        obtain ⟨leftLatent, leftSuccess⟩ := ih.1 (narrow _ List.mem_cons_self)
          (each _ List.mem_cons_self) (below _ List.mem_cons_self)
        obtain ⟨rightLatent, rightSuccess⟩ := ih.2 (narrow _ last) (each _ last) (below _ last)
        have constituents : ¬((Tree.node inner (first :: more)).isLeaf || right.isLeaf) = true := by
          rw [(each _ last).1]
          exact Bool.false_ne_true
        dsimp only
        rw [if_neg constituents, made, ok_bind, leftSuccess, ok_bind, rightSuccess]
        exact ⟨_, rfl⟩
      · simp at width

/-- Every fault but that of a category that has no number. -/
def OfKnown (fault : Fault) : Prop := ∀ label, fault ≠ .unknownCategory label

/-- A constituent whose categories are all numbered fails for its shape or for lack of room. -/
theorem ofTree_delivers {tree : Tree} (constituent : tree.isLeaf = false)
    (known : ∀ label ∈ tree.categories, ∃ state, vocabulary.id? label = some state) :
    Delivers OfKnown (fun _ => True)
      (ofTree substates vocabulary tree : Except Fault (LatentTree α)) := by
  induction tree using ofTree.induct with
  | case1 label children ih =>
    have wide : children ≠ [] := by simpa [Tree.isLeaf] using constituent
    rw [Tree.categories_node label wide, List.forall_mem_cons, List.forall_mem_flatMap] at known
    obtain ⟨⟨state, here⟩, below⟩ := known
    have malformed (cause : Malformation) : OfKnown (.malformedTree cause) :=
      fun _ => Fault.noConfusion
    have counted : Delivers OfKnown (substates[state]? = some ·) (countOf substates state label) := by
      unfold countOf
      split
      · assumption
      · exact malformed _
    rw [ofTree, id_eq_ok_iff.mpr here, ok_bind]
    refine counted.bind fun count found => ?_
    have fresh : Delivers OfKnown (fun scores : NodeScores α => scores.Fits substates state)
        (NodeScores.zeros count) :=
      delivers_zeros found fun _ => Fault.noConfusion
    rcases children with _ | ⟨⟨first, _ | ⟨inner, more⟩⟩, _ | ⟨second, _ | ⟨third, rest⟩⟩⟩
    · exact malformed _
    · exact fresh.bind fun scores _ => trivial
    · exact malformed _
    · exact malformed _
    · exact fresh.bind fun scores _ =>
        (ih rfl (below _ (List.mem_singleton_self _))).bind fun _ _ => trivial
    · refine Delivers.ite (fun _ => malformed _) fun constituents => fresh.bind fun scores _ => ?_
      have last : second ∈ [.node first (inner :: more), second] :=
        List.mem_cons_of_mem _ (List.mem_singleton_self _)
      have wide : second.isLeaf = false := by simpa [Tree.isLeaf] using constituents
      exact (ih.1 rfl (below _ List.mem_cons_self)).bind fun _ _ =>
        (ih.2 wide (below _ last)).bind fun _ _ => trivial
    · exact malformed _

/-- A word at the top is looked up as if it were a category, and has no children. -/
theorem unknown_of_ofTree_leaf {word label : String}
    (failed : (ofTree substates vocabulary (.leaf word) : Except Fault (LatentTree α)) =
      .error (.unknownCategory label)) : label = word := by
  rw [Tree.leaf, ofTree] at failed
  unfold Vocabulary.id countOf at failed
  split at failed
  · rw [ok_bind] at failed
    split at failed <;> cases failed
  · cases failed
    rfl

end LatentTree

namespace Training

open Treebank

/-- Latent trees are built for the raw trees if and only if words stand alone in each of them and
there is room for the substates; a label is found unknown only at the top of a bare word. -/
structure Annotates (α : Type) [Scalar α] (root : String) (count : Nat) (vocabulary : Vocabulary)
    (substates : List Nat) (raw binary : List Tree) : Prop where
  built_iff :
    (∃ forest : Forest α, Forest.ofTrees binary substates vocabulary = .ok forest) ↔
      (∀ tree ∈ raw, tree.Annotatable) ∧
        ((∃ label, label ≠ root ∧ Occurs (fun node => !node.isLeaf) binary label) →
          count < Word.tableLimit)
  unknown : ∀ label,
    (Forest.ofTrees binary substates vocabulary : Except Fault (Forest α)) =
        .error (.unknownCategory label) →
      Tree.leaf label ∈ raw

variable {root : String} {count : Nat} {vocabulary : Vocabulary} {substates : List Nat}
  {trees raw : List Tree}

omit [Scalar α] in
/-- A label that has a number lacks at most the room for its substates. -/
theorem Registers.supplied_iff (registers : Registers trees root count vocabulary substates)
    {label : String} (occurs : Occurs (fun node => !node.isLeaf) trees label) :
    LatentTree.Supplied substates vocabulary label ↔
      (label ≠ root → count < Word.tableLimit) := by
  obtain ⟨id, found⟩ := List.mem_iff_getElem?.mp ((registers.mem_iff label).mpr occurs)
  have known := (registers.id_iff label id).mpr found
  have counted := registers.counts label id known
  constructor
  · rintro ⟨state, size, again, there, room⟩ other
    cases known.symm.trans again
    rw [if_neg other] at counted
    cases counted.symm.trans there
    exact room
  · intro room
    refine ⟨id, _, known, counted, ?_⟩
    split
    · decide
    · exact room ‹_›

omit [Scalar α] in
theorem Occurs.mono {property : Tree → Bool} {some all : List Tree} {label : String}
    (occurs : Occurs property some label) (among : ∀ tree ∈ some, tree ∈ all) :
    Occurs property all label := by
  obtain ⟨tree, member, place⟩ := occurs
  exact ⟨tree, among tree member, place⟩

variable {vertical horizontal : Nat} {direction : Direction}

omit [Scalar α] in
theorem occurs_of_category {tree : Tree} {label : String} (member : tree ∈ raw)
    (category : label ∈ (binarize vertical horizontal direction tree).categories) :
    Occurs (fun node => !node.isLeaf) (raw.map (binarize vertical horizontal direction)) label :=
  mem_categories_iff.mp (List.mem_flatMap.mpr ⟨_, List.mem_map_of_mem member, category⟩)

/-- The binary trees of a part of the corpus have latent trees, all of them or not. -/
theorem Registers.built_iff (registers : Registers trees root count vocabulary substates)
    (part : ∀ tree ∈ raw.map (binarize vertical horizontal direction), tree ∈ trees) :
    (∃ forest : Forest α, Forest.ofTrees (raw.map (binarize vertical horizontal direction))
        substates vocabulary = .ok forest) ↔
      (∀ tree ∈ raw, tree.Annotatable) ∧
        ((∃ label, label ≠ root ∧ Occurs (fun node => !node.isLeaf)
          (raw.map (binarize vertical horizontal direction)) label) → count < Word.tableLimit) := by
  have supplied_iff {label : String} {tree : Tree} (member : tree ∈ raw)
      (category : label ∈ (binarize vertical horizontal direction tree).categories) :=
    registers.supplied_iff ((occurs_of_category member category).mono part)
  constructor
  · rintro ⟨forest, built⟩
    obtain ⟨latent, each, -⟩ := bind_eq_ok_iff.mp built
    have sound {tree : Tree} (member : tree ∈ raw) :
        (binarize vertical horizontal direction tree).Annotatable ∧
          ∀ label ∈ (binarize vertical horizontal direction tree).categories,
            LatentTree.Supplied substates vocabulary label := by
      obtain ⟨i, here⟩ := List.mem_iff_getElem?.mp (List.mem_map_of_mem member)
      obtain ⟨result, -, success⟩ := exists_of_forall₂ (forall₂_of_mapM each).flip here
      exact LatentTree.annotatable_of_ofTree success
    refine ⟨fun tree member => annotatable_binarize_iff.mp (sound member).1, ?_⟩
    rintro ⟨label, other, occurs⟩
    obtain ⟨_, binary, category⟩ := List.mem_flatMap.mp (mem_categories_iff.mpr occurs)
    obtain ⟨tree, member, rfl⟩ := List.mem_map.mp binary
    exact (supplied_iff member category).mp ((sound member).2 label category) other
  · rintro ⟨sound, room⟩
    have each : ∀ tree ∈ raw.map (binarize vertical horizontal direction),
        Delivers Never (fun _ => True)
          (LatentTree.ofTree substates vocabulary tree : Except Fault (LatentTree α)) := by
      intro _ binary
      obtain ⟨tree, member, rfl⟩ := List.mem_map.mp binary
      obtain ⟨latent, success⟩ := LatentTree.exists_ofTree (α := α) (narrow_splitWide _)
        (annotatable_binarize_iff.mpr (sound tree member)) fun label category =>
          (supplied_iff member category).mpr fun other =>
            room ⟨label, other, occurs_of_category member category⟩
      exact delivers_never_iff.mpr ⟨latent, success, trivial⟩
    obtain ⟨latent, success, -⟩ := delivers_never_iff.mp (Delivers.mapM_forall each)
    exact ⟨⟨latent, substates⟩, by rw [Forest.ofTrees, success]; rfl⟩

/-- Every constituent of the corpus has a number, but a word at the top is looked up as well. -/
theorem Registers.bare_of_unknown (registers : Registers trees root count vocabulary substates)
    (part : ∀ tree ∈ raw.map (binarize vertical horizontal direction), tree ∈ trees)
    {label : String} (failed : (Forest.ofTrees (raw.map (binarize vertical horizontal direction))
      substates vocabulary : Except Fault (Forest α)) = .error (.unknownCategory label)) :
    Tree.leaf label ∈ raw := by
  let Bare (fault : Fault) : Prop := ∀ label, fault = .unknownCategory label → Tree.leaf label ∈ raw
  have each : ∀ tree ∈ raw.map (binarize vertical horizontal direction),
      Delivers Bare (fun _ => True)
        (LatentTree.ofTree substates vocabulary tree : Except Fault (LatentTree α)) := by
    intro _ binary
    obtain ⟨tree, member, rfl⟩ := List.mem_map.mp binary
    cases outcome : (LatentTree.ofTree substates vocabulary (binarize vertical horizontal
        direction tree) : Except Fault (LatentTree α)) with
    | ok latent => trivial
    | error fault =>
      rintro label rfl
      cases leaf : tree.isLeaf with
      | true =>
        obtain ⟨word, rfl⟩ := Tree.isLeaf_iff.mp leaf
        exact LatentTree.unknown_of_ofTree_leaf outcome ▸ member
      | false =>
        have known (label : String)
            (category : label ∈ (binarize vertical horizontal direction tree).categories) :
            ∃ id, vocabulary.id? label = some id := by
          have occurs := (occurs_of_category member category).mono part
          obtain ⟨id, found⟩ := List.mem_iff_getElem?.mp ((registers.mem_iff label).mpr occurs)
          exact ⟨id, (registers.id_iff label id).mpr found⟩
        have shaped : Delivers LatentTree.OfKnown (fun _ => True)
            (LatentTree.ofTree substates vocabulary (binarize vertical horizontal direction tree) :
              Except Fault (LatentTree α)) :=
          LatentTree.ofTree_delivers ((isLeaf_binarize tree).trans leaf) known
        rw [outcome] at shaped
        exact absurd rfl (shaped label)
  have built : Delivers Bare (fun _ => True) (Forest.ofTrees
      (raw.map (binarize vertical horizontal direction)) substates vocabulary :
        Except Fault (Forest α)) :=
    (Delivers.mapM_forall each).bind fun _ _ => trivial
  rw [failed] at built
  exact built label rfl

/-- A fresh run on any two lists of raw trees, whatever the root category is and wherever it
stands. -/
theorem categoriesOf_annotates (vertical horizontal : Nat) (direction : Direction) (root : String)
    (count : Nat) (baseline : Bool) (train validation : List Tree) :
    let binary := List.map (binarize vertical horizontal direction)
    let fresh := categoriesOf (.empty root) count baseline (binary train) (binary validation)
    let start := if baseline then 1 else count
    Registers (binary train ++ binary validation) root start fresh.1 fresh.2 ∧
      Annotates α root start fresh.1 fresh.2 train (binary train) ∧
      Annotates α root start fresh.1 fresh.2 validation (binary validation) := by
  intro binary fresh start
  have registers : Registers (binary train ++ binary validation) root start fresh.1 fresh.2 :=
    registers_numberCategories _ root start
  have train_part : ∀ tree ∈ binary train, tree ∈ binary train ++ binary validation :=
    fun _ => List.mem_append_left _
  have validation_part : ∀ tree ∈ binary validation, tree ∈ binary train ++ binary validation :=
    fun _ => List.mem_append_right _
  exact ⟨registers,
    ⟨registers.built_iff train_part, fun _ => registers.bare_of_unknown train_part⟩,
    ⟨registers.built_iff validation_part, fun _ => registers.bare_of_unknown validation_part⟩⟩

end Training

end LatentGrammar
