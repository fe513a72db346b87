import LatentGrammar.Proofs.Binarization.Corpora
import LatentGrammar.Proofs.Counting.Expected

namespace LatentGrammar

section Parts

variable {β : Type} {part other whole : List β} {item : β} {start : Nat}

theorem cons_prefix_drop_iff :
    item :: part <+: whole.drop start ↔ whole[start]? = some item ∧ part <+: whole.drop (start + 1) := by
  by_cases inside : start < whole.length
  · rw [List.drop_eq_getElem_cons inside, List.cons_prefix_cons, List.getElem?_eq_getElem inside,
      Option.some.injEq]
    exact and_congr_left fun _ => eq_comm
  · rw [List.drop_eq_nil_of_le (Nat.not_lt.mp inside), List.getElem?_eq_none (Nat.not_lt.mp inside)]
    simp

theorem append_prefix_drop_iff :
    part ++ other <+: whole.drop start ↔
      part <+: whole.drop start ∧ other <+: whole.drop (start + part.length) := by
  induction part generalizing start with
  | nil => simp
  | cons item rest ih =>
    rw [List.cons_append, cons_prefix_drop_iff, cons_prefix_drop_iff, ih, and_assoc,
      List.length_cons, show start + 1 + rest.length = start + (rest.length + 1) by omega]

theorem eq_of_nodup_flatMap {γ : Type} {items : List γ} {f : γ → List β}
    (distinct : (items.flatMap f).Nodup) {i j : Nat} {one two : γ} (first : items[i]? = some one)
    (second : items[j]? = some two) (inOne : item ∈ f one) (inTwo : item ∈ f two) : i = j := by
  have apart := List.pairwise_iff_getElem.mp (List.nodup_flatMap.mp distinct).2
  obtain ⟨below, rfl⟩ := List.getElem?_eq_some_iff.mp first
  obtain ⟨below', rfl⟩ := List.getElem?_eq_some_iff.mp second
  rcases Nat.lt_trichotomy i j with before | same | behind
  · exact (apart i j below below' before inOne inTwo).elim
  · exact same
  · exact (apart j i below' below behind inTwo inOne).elim

end Parts

namespace LatentTree

variable {α : Type} {vocabulary : Vocabulary} {tree node : LatentTree α}
  {table : List (Node α)} {start : Nat}

/-- The tree with labels instead of categories, if they all have labels. -/
def spell (vocabulary : Vocabulary) : LatentTree α → Option Tree
  | preterminal state word _ => do return .node (← vocabulary.label? state) [.leaf word]
  | unary state _ child => do
    return .node (← vocabulary.label? state) [← child.spell vocabulary]
  | binary state _ left right => do
    return .node (← vocabulary.label? state) [← left.spell vocabulary, ← right.spell vocabulary]

/-- The tree at a position of a table, if it has no more than `depth` levels. -/
def unfold (vocabulary : Vocabulary) (table : List (Node α)) : Nat → Nat → Option Tree
  | 0, _ => none
  | depth + 1, position => do
    let node ← table[position]?
    let label ← vocabulary.label? node.state
    match node.word, node.children with
    | some word, [] => return .node label [.leaf word]
    | none, first :: rest =>
      return .node label (← (first :: rest).mapM (unfold vocabulary table depth))
    | _, _ => none

/-- The table is the layout of a tree. Its nodes are in pre-order: a first child stands right behind
its parent, and a second child right behind the tree at the first one. All nodes but the one at the
top are children, each of exactly one node, and those without children are those with words. Read
from the top, the table gives the tree. -/
structure Encodes (vocabulary : Vocabulary) (table : List (Node α)) (source : Tree) : Prop where
  preorder : ∀ (i : Nat) node, table[i]? = some node →
    node.children = [] ∨ node.children = [i + 1] ∨
      ∃ first, unfold vocabulary table table.length (i + 1) = some first ∧
        node.children = [i + 1, i + 1 + first.categories.length]
  children : (table.flatMap Node.children).Perm (List.range' 1 (table.length - 1))
  parent : ∀ j, 0 < j → j < table.length →
    ∃! i : Nat, ∃ node, table[i]? = some node ∧ j ∈ node.children
  word_iff : ∀ node ∈ table, node.word.isSome ↔ node.children = []
  unfold_eq : ∀ depth, table.length ≤ depth → unfold vocabulary table depth 0 = some source

theorem size_pos (tree : LatentTree α) : 0 < tree.size := by
  cases tree <;> exact Nat.succ_pos _

@[simp] theorem length_nodesFrom (tree : LatentTree α) (start : Nat) :
    (tree.nodesFrom start).length = tree.size := by
  induction tree generalizing start with
  | preterminal => rfl
  | unary _ _ _ ih => rw [nodesFrom, size, List.length_cons, ih]
  | binary _ _ _ _ left right =>
    rw [nodesFrom, size, List.length_cons, List.length_append, left, right]

/-- The position of the top and those of all children are the positions from `start` on. -/
theorem children_nodesFrom (tree : LatentTree α) (start : Nat) :
    (start :: (tree.nodesFrom start).flatMap Node.children).Perm (List.range' start tree.size) := by
  induction tree generalizing start with
  | preterminal => rfl
  | unary _ _ child ih =>
    rw [nodesFrom, List.flatMap_cons, size, List.range'_succ]
    exact (ih (start + 1)).cons start
  | binary _ _ left right leftIh rightIh =>
    rw [nodesFrom, List.flatMap_cons, List.flatMap_append, size, List.range'_succ,
      ← List.range'_append_1]
    have below := (leftIh (start + 1)).append (rightIh (start + 1 + left.size))
    have sorted := (List.perm_middle.symm.cons (start + 1)).trans below
    exact sorted.cons start

theorem word_iff_of_mem_nodesFrom {entry : Node α} (member : entry ∈ tree.nodesFrom start) :
    entry.word.isSome ↔ entry.children = [] := by
  induction tree generalizing start with
  | preterminal =>
    obtain rfl := List.mem_singleton.mp member
    exact iff_of_true rfl rfl
  | unary _ _ _ ih =>
    rcases List.mem_cons.mp member with rfl | below
    · exact iff_of_false Bool.false_ne_true (List.cons_ne_nil _ _)
    · exact ih below
  | binary _ _ _ _ leftIh rightIh =>
    rcases List.mem_cons.mp member with rfl | below
    · exact iff_of_false Bool.false_ne_true (List.cons_ne_nil _ _)
    · exact (List.mem_append.mp below).elim leftIh rightIh

theorem nodesFrom_prefix {i : Nat} (found : tree.subtrees[i]? = some node) (start : Nat) :
    node.nodesFrom (start + i) <+: (tree.nodesFrom start).drop i := by
  induction tree generalizing i start with
  | preterminal =>
    obtain ⟨rfl, rfl⟩ : i = 0 ∧ _ = node := by simpa [subtrees, List.getElem?_singleton] using found
    exact List.prefix_rfl
  | unary state scores child ih =>
    cases i with
    | zero =>
      obtain rfl : unary state scores child = node := by simpa [subtrees] using found
      exact List.prefix_rfl
    | succ i =>
      rw [nodesFrom, List.drop_succ_cons, Nat.add_comm i 1, ← Nat.add_assoc]
      exact ih (by simpa [subtrees] using found) (start + 1)
  | binary state scores left right leftIh rightIh =>
    cases i with
    | zero =>
      obtain rfl : binary state scores left right = node := by simpa [subtrees] using found
      exact List.prefix_rfl
    | succ i =>
      rw [nodesFrom, List.drop_succ_cons, Nat.add_comm i 1, ← Nat.add_assoc]
      replace found : (left.subtrees ++ right.subtrees)[i]? = some node := by
        simpa [subtrees] using found
      rw [List.drop_append, length_nodesFrom]
      by_cases inLeft : i < left.subtrees.length
      · rw [List.getElem?_append_left inLeft] at found
        exact (leftIh found (start + 1)).trans (List.prefix_append _ _)
      · have beyond : left.size ≤ i := length_subtrees_eq_size left ▸ Nat.not_lt.mp inLeft
        rw [List.getElem?_append_right (Nat.not_lt.mp inLeft), length_subtrees_eq_size] at found
        have there := rightIh found (start + 1 + left.size)
        rw [show start + 1 + left.size + (i - left.size) = start + 1 + i by omega] at there
        rwa [List.drop_eq_nil_of_le (by rwa [length_nodesFrom]), List.nil_append]

/-- Where the nodes of a tree stand in a table, the tree can be read. -/
theorem unfold_eq_spell (standing : tree.nodesFrom start <+: table.drop start) {depth : Nat}
    (deep : tree.size ≤ depth) :
    unfold vocabulary table depth start = tree.spell vocabulary := by
  induction tree generalizing start depth with
  | preterminal =>
    obtain ⟨depth, rfl⟩ := Nat.exists_eq_add_one.mpr (Nat.lt_of_lt_of_le (size_pos _) deep)
    obtain ⟨here, -⟩ := cons_prefix_drop_iff.mp standing
    simp [unfold, spell, here]
  | unary _ _ _ ih =>
    obtain ⟨depth, rfl⟩ := Nat.exists_eq_add_one.mpr (Nat.lt_of_lt_of_le (size_pos _) deep)
    obtain ⟨here, below⟩ := cons_prefix_drop_iff.mp standing
    simp [unfold, spell, here, ih below (Nat.succ_le_succ_iff.mp deep), Option.bind_assoc]
  | binary _ _ left right leftIh rightIh =>
    obtain ⟨depth, rfl⟩ := Nat.exists_eq_add_one.mpr (Nat.lt_of_lt_of_le (size_pos _) deep)
    obtain ⟨here, below⟩ := cons_prefix_drop_iff.mp standing
    obtain ⟨leftBelow, rightBelow⟩ := append_prefix_drop_iff.mp below
    rw [length_nodesFrom] at rightBelow
    rw [size] at deep
    have leftRead : unfold vocabulary table depth (start + 1) = _ := leftIh leftBelow (by omega)
    have rightRead : unfold vocabulary table depth (start + 1 + left.size) = _ :=
      rightIh rightBelow (by omega)
    simp [unfold, spell, here, leftRead, rightRead, Option.bind_assoc]

section Spelling

variable {state : Nat} {word : String} {scores : NodeScores α} {child left right : LatentTree α}
  {source : Tree}

theorem spell_preterminal (spelled : (preterminal state word scores).spell vocabulary = some source) :
    ∃ label, vocabulary.label? state = some label ∧ source = .node label [.leaf word] := by
  obtain ⟨label, known, done⟩ := Option.bind_eq_some_iff.mp spelled
  exact ⟨label, known, (Option.some.inj done).symm⟩

theorem spell_unary (spelled : (unary state scores child).spell vocabulary = some source) :
    ∃ label inner, vocabulary.label? state = some label ∧ child.spell vocabulary = some inner ∧
      source = .node label [inner] := by
  obtain ⟨label, known, spelled⟩ := Option.bind_eq_some_iff.mp spelled
  obtain ⟨inner, below, done⟩ := Option.bind_eq_some_iff.mp spelled
  exact ⟨label, inner, known, below, (Option.some.inj done).symm⟩

theorem spell_binary (spelled : (binary state scores left right).spell vocabulary = some source) :
    ∃ label first second, vocabulary.label? state = some label ∧
      left.spell vocabulary = some first ∧ right.spell vocabulary = some second ∧
      source = .node label [first, second] := by
  obtain ⟨label, known, spelled⟩ := Option.bind_eq_some_iff.mp spelled
  obtain ⟨first, leftBelow, spelled⟩ := Option.bind_eq_some_iff.mp spelled
  obtain ⟨second, rightBelow, done⟩ := Option.bind_eq_some_iff.mp spelled
  exact ⟨label, first, second, known, leftBelow, rightBelow, (Option.some.inj done).symm⟩

end Spelling

theorem length_categories_of_spell {source : Tree} (spelled : tree.spell vocabulary = some source) :
    source.categories.length = tree.size := by
  induction tree generalizing source with
  | preterminal state word scores =>
    obtain ⟨label, -, rfl⟩ := spell_preterminal spelled
    rfl
  | unary state scores child ih =>
    obtain ⟨label, inner, -, below, rfl⟩ := spell_unary spelled
    rw [Tree.categories_node _ (List.cons_ne_nil _ _), List.flatMap_singleton, List.length_cons,
      ih below, size]
  | binary state scores left right leftIh rightIh =>
    obtain ⟨label, first, second, -, leftBelow, rightBelow, rfl⟩ := spell_binary spelled
    rw [Tree.categories_node _ (List.cons_ne_nil _ _), List.flatMap_cons, List.flatMap_singleton,
      List.length_cons, List.length_append, leftIh leftBelow, rightIh rightBelow, size]

theorem spell_subtree {source : Tree} (spelled : tree.spell vocabulary = some source)
    (member : node ∈ tree.subtrees) : ∃ part, node.spell vocabulary = some part := by
  induction tree generalizing source with
  | preterminal =>
    obtain rfl := List.mem_singleton.mp member
    exact ⟨source, spelled⟩
  | unary state scores child ih =>
    rcases List.mem_cons.mp member with rfl | below
    · exact ⟨source, spelled⟩
    · obtain ⟨-, inner, -, spelled, -⟩ := spell_unary spelled
      exact ih spelled below
  | binary state scores left right leftIh rightIh =>
    rcases List.mem_cons.mp member with rfl | below
    · exact ⟨source, spelled⟩
    · obtain ⟨-, first, second, -, leftSpelled, rightSpelled, -⟩ := spell_binary spelled
      exact (List.mem_append.mp below).elim (leftIh leftSpelled) (rightIh rightSpelled)

/-- The positions of all children are those behind the top. -/
theorem children_nodes (tree : LatentTree α) :
    (tree.nodes.flatMap Node.children).Perm (List.range' 1 (tree.nodes.length - 1)) := by
  have all := children_nodesFrom tree 0
  rw [← Nat.sub_add_cancel (size_pos tree), List.range'_succ] at all
  rw [nodes, length_nodesFrom]
  exact all.cons_inv

theorem exists_unique_parent {tree : LatentTree α} {j : Nat} (positive : 0 < j)
    (below : j < tree.nodes.length) :
    ∃! i : Nat, ∃ node, tree.nodes[i]? = some node ∧ j ∈ node.children := by
  have distinct : (tree.nodes.flatMap Node.children).Nodup :=
    tree.children_nodes.nodup_iff.mpr List.nodup_range'
  have occurs : j ∈ tree.nodes.flatMap Node.children :=
    tree.children_nodes.mem_iff.mpr (List.mem_range'_1.mpr (by omega))
  obtain ⟨entry, member, child⟩ := List.mem_flatMap.mp occurs
  obtain ⟨i, found⟩ := List.mem_iff_getElem?.mp member
  refine ⟨i, ⟨entry, found, child⟩, ?_⟩
  rintro k ⟨other, there, again⟩
  exact eq_of_nodup_flatMap distinct there found again child

/-- The nodes of a subtree stand where its top stands in pre-order. -/
theorem preorder_nodes {source : Tree} (spelled : tree.spell vocabulary = some source) {i : Nat}
    {entry : Node α} (found : tree.nodes[i]? = some entry) :
    entry.children = [] ∨ entry.children = [i + 1] ∨
      ∃ first, unfold vocabulary tree.nodes tree.nodes.length (i + 1) = some first ∧
        entry.children = [i + 1, i + 1 + first.categories.length] := by
  obtain ⟨sub, here⟩ : ∃ sub, tree.subtrees[i]? = some sub := by
    have inside : i < tree.subtrees.length := by
      rw [length_subtrees_eq_size, ← length_nodesFrom tree 0]
      exact (List.getElem?_eq_some_iff.mp found).1
    exact ⟨_, List.getElem?_eq_getElem inside⟩
  have standing := nodesFrom_prefix here 0
  rw [Nat.zero_add] at standing
  cases sub with
  | preterminal state word scores =>
    obtain ⟨top, -⟩ := cons_prefix_drop_iff.mp standing
    obtain rfl := Option.some.inj (found.symm.trans top)
    exact .inl rfl
  | unary state scores child =>
    obtain ⟨top, -⟩ := cons_prefix_drop_iff.mp standing
    obtain rfl := Option.some.inj (found.symm.trans top)
    exact .inr (.inl rfl)
  | binary state scores left right =>
    obtain ⟨top, below⟩ := cons_prefix_drop_iff.mp standing
    obtain rfl := Option.some.inj (found.symm.trans top)
    obtain ⟨leftBelow, -⟩ := append_prefix_drop_iff.mp below
    obtain ⟨part, partSpelled⟩ := spell_subtree spelled (List.mem_of_getElem? here)
    obtain ⟨-, first, -, -, firstSpelled, -, -⟩ := spell_binary partSpelled
    have deep : left.size ≤ tree.nodes.length := by
      have fits := leftBelow.length_le
      rw [length_nodesFrom, List.length_drop] at fits
      exact fits.trans (Nat.sub_le _ _)
    refine .inr (.inr ⟨first, (unfold_eq_spell leftBelow deep).trans firstSpelled, ?_⟩)
    rw [length_categories_of_spell firstSpelled]

theorem encodes_nodes {source : Tree} (spelled : tree.spell vocabulary = some source) :
    Encodes vocabulary tree.nodes source where
  preorder _ _ := preorder_nodes spelled
  children := tree.children_nodes
  parent _ := exists_unique_parent
  word_iff _ := word_iff_of_mem_nodesFrom
  unfold_eq depth deep := by
    have standing : tree.nodesFrom 0 <+: tree.nodes.drop 0 := List.prefix_rfl
    exact (unfold_eq_spell standing ((length_nodesFrom tree 0).symm ▸ deep)).trans spelled

end LatentTree

end LatentGrammar
