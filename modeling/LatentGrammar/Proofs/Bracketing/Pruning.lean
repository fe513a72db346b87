import LatentGrammar.Proofs.Binarization.Places
import LatentGrammar.Proofs.Bracketing.Printing

namespace LatentGrammar.Treebank

/-- These are the words at all places where any stand, in the order of the places. -/
def InOrder (stands : List Nat → String → Prop) (words : List String) : Prop :=
  ∃ paths : List (List Nat), paths.Pairwise (· < ·) ∧
    (∀ path, path ∈ paths ↔ ∃ word, stands path word) ∧ List.Forall₂ stands paths words

namespace InOrder

variable {stands other : List Nat → String → Prop} {words others : List String}

theorem congr (ordered : InOrder stands words)
    (same : ∀ path word, stands path word ↔ other path word) : InOrder other words := by
  obtain rfl : stands = other := funext fun path => funext fun word => propext (same path word)
  exact ordered

theorem nothing (silent : ∀ path word, ¬stands path word) : InOrder stands [] :=
  ⟨[], .nil, by simpa using silent, .nil⟩

theorem single (word : String) : InOrder (fun path other => path = [] ∧ other = word) [word] :=
  ⟨[[]], List.pairwise_singleton _ _, by simp, .cons ⟨rfl, rfl⟩ .nil⟩

theorem below (ordered : InOrder stands words) (n : Nat) :
    InOrder (fun path word => ∃ rest, path = n :: rest ∧ stands rest word) words := by
  obtain ⟨paths, sorted, complete, each⟩ := ordered
  refine ⟨paths.map (n :: ·), ?_, fun path => ?_, ?_⟩
  · refine List.pairwise_map.mpr (sorted.imp fun before => ?_)
    exact List.cons_lt_cons_iff.mpr (.inr ⟨rfl, before⟩)
  · rw [List.mem_map]
    constructor
    · rintro ⟨rest, member, rfl⟩
      obtain ⟨word, here⟩ := (complete rest).mp member
      exact ⟨word, rest, rfl, here⟩
    · rintro ⟨word, rest, rfl, here⟩
      exact ⟨rest, (complete rest).mpr ⟨word, here⟩, rfl⟩
  · exact List.forall₂_map_left_iff.mpr (each.imp fun path word here => ⟨path, rfl, here⟩)

theorem append (first : InOrder stands words) (second : InOrder other others)
    (before : ∀ path word later next, stands path word → other later next → path < later) :
    InOrder (fun path word => stands path word ∨ other path word) (words ++ others) := by
  obtain ⟨paths, sorted, complete, each⟩ := first
  obtain ⟨laters, sorted', complete', each'⟩ := second
  refine ⟨paths ++ laters, ?_, fun path => ?_, ?_⟩
  · refine List.pairwise_append.mpr ⟨sorted, sorted', fun path member later member' => ?_⟩
    obtain ⟨word, here⟩ := (complete path).mp member
    obtain ⟨next, there⟩ := (complete' later).mp member'
    exact before path word later next here there
  · rw [List.mem_append, complete, complete', exists_or]
  · exact List.rel_append (each.imp fun _ _ => .inl) (each'.imp fun _ _ => .inr)

end InOrder

/-- The path leads to a word, and no constituent on the way down has the label of empty elements. -/
def Pronounced (tree : Tree) (path : List Nat) (word : String) : Prop :=
  tree.at? path = some (.leaf word) ∧ emptyLabel ∉ tree.ancestors path

variable {tree result : Tree} {label : String} {children : List Tree} {path : List Nat}
  {word : String}

theorem pronounced_leaf {other : String} :
    Pronounced (.leaf other) path word ↔ path = [] ∧ word = other := by
  cases path with
  | nil => simp [Pronounced, Tree.leaf, Tree.at?, Tree.ancestors, @eq_comm _ other]
  | cons i path => simp [Pronounced, Tree.leaf, Tree.at?]

theorem pronounced_node (wide : children ≠ []) :
    Pronounced (.node label children) path word ↔ label ≠ emptyLabel ∧
      ∃ i child rest, path = i :: rest ∧ children[i]? = some child ∧ Pronounced child rest word := by
  cases path with
  | nil => simp [Pronounced, Tree.leaf, Tree.at?, wide]
  | cons i rest =>
    constructor
    · rintro ⟨found, clear⟩
      obtain ⟨child, here, found⟩ := Tree.at?_cons_eq_some_iff.mp found
      rw [Tree.children_node] at here
      simp only [Tree.ancestors, Tree.children_node, here, Option.elim_some, Tree.label_node,
        List.mem_append, List.mem_singleton, not_or] at clear
      exact ⟨Ne.symm clear.2, i, child, rest, rfl, here, found, clear.1⟩
    · rintro ⟨named, i, child, rest, same, here, found, clear⟩
      obtain ⟨rfl, rfl⟩ := List.cons.inj same
      refine ⟨Tree.at?_cons_eq_some_iff.mpr ⟨child, here, found⟩, ?_⟩
      simp only [Tree.ancestors, Tree.children_node, here, Option.elim_some, Tree.label_node,
        List.mem_append, List.mem_singleton, not_or]
      exact ⟨clear, Ne.symm named⟩

theorem inOrder_children {words : Tree → List String}
    (each : ∀ child ∈ children, InOrder (Pronounced child) (words child)) (offset : Nat) :
    InOrder (fun path word => ∃ i child rest, path = (offset + i) :: rest ∧
      children[i]? = some child ∧ Pronounced child rest word) (children.flatMap words) := by
  induction children generalizing offset with
  | nil => exact .nothing (by simp)
  | cons child rest ih =>
    obtain ⟨here, later⟩ := List.forall_mem_cons.mp each
    rw [List.flatMap_cons]
    refine ((here.below offset).append (ih later (offset + 1)) ?_).congr fun path word => ?_
    · rintro _ _ _ _ ⟨_, rfl, -⟩ ⟨i, _, _, rfl, -⟩
      exact List.cons_lt_cons_iff.mpr (.inl (by omega))
    · constructor
      · rintro (⟨inside, rfl, stands⟩ | ⟨i, other, inside, rfl, found, stands⟩)
        · exact ⟨0, child, inside, rfl, rfl, stands⟩
        · exact ⟨i + 1, other, inside, by rw [Nat.add_assoc, Nat.add_comm 1], found, stands⟩
      · rintro ⟨_ | i, other, inside, rfl, found, stands⟩
        · obtain rfl := Option.some.inj found
          exact .inl ⟨inside, rfl, stands⟩
        · exact .inr ⟨i, other, inside, by rw [Nat.add_assoc, Nat.add_comm 1], found, stands⟩

theorem pruneAll_eq (trees : List Tree) : pruneAll trees = trees.filterMap prune := by
  induction trees with
  | nil => rfl
  | cons tree rest ih => cases pruned : prune tree <;> simp [pruneAll, pruned, ih]

theorem prune_node (label : String) (wide : children ≠ []) :
    prune (.node label children) =
      if label = emptyLabel ∨ children.filterMap prune = [] then none
      else some (.node label (children.filterMap prune)) := by
  obtain ⟨first, rest, rfl⟩ := List.exists_cons_of_ne_nil wide
  rw [prune, pruneAll_eq]
  by_cases empty : label = emptyLabel
  · simp [empty]
  · cases (first :: rest).filterMap prune <;> simp [empty]

theorem prune_node_eq_some_iff (wide : children ≠ []) :
    prune (.node label children) = some result ↔ label ≠ emptyLabel ∧
      children.filterMap prune ≠ [] ∧ result = .node label (children.filterMap prune) := by
  rw [prune_node label wide]
  split
  · next gone =>
    refine iff_of_false (by simp) fun ⟨named, kept, _⟩ => ?_
    exact gone.elim named kept
  · next stays =>
    rw [not_or] at stays
    rw [Option.some_inj, @eq_comm _ _ result]
    exact ⟨fun same => ⟨stays.1, stays.2, same⟩, fun all => all.2.2⟩

/-- The words that are left of a tree; none if the tree is removed. -/
def remainingWords (tree : Tree) : List String := ((prune tree).map Tree.words).getD []

theorem remainingWords_node (label : String) (wide : children ≠ []) :
    remainingWords (.node label children) =
      if label = emptyLabel then [] else children.flatMap remainingWords := by
  have inside : (children.filterMap prune).flatMap Tree.words =
      children.flatMap remainingWords := by
    clear wide
    induction children with
    | nil => rfl
    | cons child rest ih =>
      rw [List.flatMap_cons, ← ih, remainingWords, List.filterMap_cons]
      cases prune child <;> rfl
  rw [remainingWords, prune_node label wide, ← inside]
  by_cases empty : label = emptyLabel
  · simp [empty]
  · by_cases none : children.filterMap prune = []
    · simp [empty, none]
    · simp [empty, none, Tree.words_node label none]

theorem words_ne_nil (tree : Tree) : tree.words ≠ [] := by
  induction tree using Tree.induct with
  | node label children ih =>
    cases children with
    | nil => simp [Tree.words]
    | cons first rest =>
      rw [Tree.words]
      exact List.append_ne_nil_of_left_ne_nil (ih first List.mem_cons_self) _

theorem exists_prune_iff : (∃ result, prune tree = some result) ↔ remainingWords tree ≠ [] := by
  unfold remainingWords
  cases prune tree with
  | none => simp
  | some result => simpa using words_ne_nil result

/-- The words that are left are those that are pronounced. -/
theorem inOrder_remainingWords (tree : Tree) :
    InOrder (Pronounced tree) (remainingWords tree) := by
  induction tree using Tree.induct with
  | node label children ih =>
    by_cases bare : children = []
    · subst bare
      exact (InOrder.single label).congr fun path word => pronounced_leaf.symm
    · rw [remainingWords_node label bare]
      by_cases empty : label = emptyLabel
      · rw [if_pos empty]
        exact .nothing fun path word stands => ((pronounced_node bare).mp stands).1 empty
      · rw [if_neg empty]
        refine (inOrder_children ih 0).congr fun path word => ?_
        simp only [Nat.zero_add, pronounced_node bare, ne_eq, empty, not_false_eq_true, true_and]

/-- The second tree is the first one with some children left out, here and there. Every node of it
has the label that it had, and its children are in the order that they were in; it is a word only if
it was one, and a constituent only if some of its children are left. -/
inductive Thinned : Tree → Tree → Prop where
  | word (word : String) : Thinned (.leaf word) (.leaf word)
  | constituent {label : String} {children chosen kept : List Tree}
      (order : chosen.Sublist children) (each : List.Forall₂ Thinned chosen kept)
      (some : kept ≠ []) : Thinned (.node label children) (.node label kept)

/-- What a partial function comes to comes from some of the items, in their order. -/
theorem exists_sublist_filterMap {β γ : Type} (f : β → Option γ) (items : List β) :
    ∃ chosen, chosen.Sublist items ∧
      List.Forall₂ (fun item value => f item = some value) chosen (items.filterMap f) := by
  induction items with
  | nil => exact ⟨[], .slnil, .nil⟩
  | cons item rest ih =>
    obtain ⟨chosen, order, each⟩ := ih
    cases here : f item with
    | none => exact ⟨chosen, order.cons item, by simpa [here] using each⟩
    | some value =>
      refine ⟨item :: chosen, order.cons_cons item, ?_⟩
      rw [List.filterMap_cons_some here]
      exact .cons here each

theorem thinned_of_prune (pruned : prune tree = some result) : Thinned tree result := by
  induction tree using Tree.induct generalizing result with
  | node label children ih =>
    by_cases bare : children = []
    · subst bare
      obtain rfl := Option.some.inj pruned
      exact .word label
    · obtain ⟨-, some, rfl⟩ := (prune_node_eq_some_iff bare).mp pruned
      obtain ⟨chosen, order, each⟩ := exists_sublist_filterMap prune children
      refine .constituent order ?_ some
      have members : ∀ child ∈ chosen, child ∈ children := fun child member => order.subset member
      clear order some pruned
      generalize children.filterMap prune = kept at each
      induction each with
      | nil => exact .nil
      | cons here _ later =>
        obtain ⟨first, rest⟩ := List.forall_mem_cons.mp members
        exact .cons (ih _ first here) (later rest)

/-- No constituent of what is left is an empty element. -/
theorem categories_of_prune (pruned : prune tree = some result) :
    emptyLabel ∉ result.categories := by
  induction tree using Tree.induct generalizing result with
  | node label children ih =>
    by_cases bare : children = []
    · subst bare
      obtain rfl := Option.some.inj pruned
      simp [Tree.categories]
    · obtain ⟨named, some, rfl⟩ := (prune_node_eq_some_iff bare).mp pruned
      rw [Tree.categories_node label some, List.mem_cons, not_or, List.mem_flatMap]
      refine ⟨Ne.symm named, ?_⟩
      rintro ⟨kept, member, inside⟩
      obtain ⟨child, present, here⟩ := List.mem_filterMap.mp member
      exact ih child present here inside

/-- A tree as it is left without its empty elements. -/
structure Emptied (tree result : Tree) : Prop where
  thinned : Thinned tree result
  words : InOrder (Pronounced tree) result.words
  categories : emptyLabel ∉ result.categories
  again : prune result = some result

theorem emptied_of_prune (pruned : prune tree = some result) : Emptied tree result where
  thinned := thinned_of_prune pruned
  words := by
    have all := inOrder_remainingWords tree
    rwa [remainingWords, pruned] at all
  categories := categories_of_prune pruned
  again := prune_eq_some fun label known empty => categories_of_prune pruned (empty ▸ known)

theorem exists_prune_iff_pronounced :
    (∃ result, prune tree = some result) ↔ ∃ path word, Pronounced tree path word := by
  obtain ⟨paths, -, complete, each⟩ := inOrder_remainingWords tree
  have some : paths ≠ [] ↔ remainingWords tree ≠ [] := by
    rw [← List.length_pos_iff, each.length_eq, List.length_pos_iff]
  rw [exists_prune_iff, ← some, ← exists_congr complete]
  exact ⟨List.exists_mem_of_ne_nil paths, fun ⟨path, member⟩ => List.ne_nil_of_mem member⟩

/-- Nothing is heard of what is inside an empty element. -/
def audible (above words : List String) : List String :=
  if emptyLabel ∈ above then [] else words

/-- What a constituent with nothing in it is taken for: the word that its label forms, or the root
label if it is outermost and its label would be replaced by that. -/
def bareWord (root : String) (above : List String) (label : String) : String :=
  if above = [] ∧ (label = "" ∨ label = root) then root else label

/-- The words that are heard of some tokens, given the labels of the constituents that are open. The
word behind an opening parenthesis is a label, unless the closing one follows. -/
def heard (keepFunctions : Bool) (root : String) : List String → List Token → List String
  | _, [] => []
  | above, .opening :: .word text :: .closing :: rest =>
    audible above [bareWord root above (plainLabel keepFunctions text)]
      ++ heard keepFunctions root above rest
  | above, .opening :: .word text :: rest =>
    heard keepFunctions root (plainLabel keepFunctions text :: above) rest
  | above, .opening :: rest => heard keepFunctions root ("" :: above) rest
  | above, .word text :: rest => audible above [text] ++ heard keepFunctions root above rest
  | above, .closing :: rest => heard keepFunctions root above.tail rest

variable {keepFunctions : Bool} {root : String}

theorem heard_labelled (text : String) {above : List String} {more : List Token}
    (wide : more.head? ≠ some .closing) :
    heard keepFunctions root above (.opening :: .word text :: more) =
      heard keepFunctions root (plainLabel keepFunctions text :: above) more := by
  cases more with
  | nil => rfl
  | cons token rest =>
    cases token with
    | closing => exact absurd rfl wide
    | opening => rfl
    | word other => rfl

theorem Constituent.starts {tokens : List Token} {tree : Tree}
    (constituent : Constituent keepFunctions tokens tree) : ∃ inner, tokens = .opening :: inner := by
  cases constituent <;> exact ⟨_, rfl⟩

/-- Behind a label that has something below it no parenthesis is closed. -/
theorem Items.starts {items : List Token} {child : Tree} {children : List Tree}
    (inside : Items keepFunctions items (child :: children)) (more : List Token) :
    (items ++ more).head? ≠ some .closing := by
  cases inside with
  | word later => simp
  | constituent head later =>
    obtain ⟨inner, rfl⟩ := head.starts
    simp

theorem audible_cons (label : String) (above words : List String) :
    audible (label :: above) words = audible above (if label = emptyLabel then [] else words) := by
  unfold audible
  by_cases empty : label = emptyLabel
  · simp [empty]
  · simp [empty, Ne.symm empty]

theorem audible_append (above words others : List String) :
    audible above (words ++ others) = audible above words ++ audible above others := by
  unfold audible
  split <;> simp

mutual

theorem Constituent.heard_append {tokens : List Token} {tree : Tree}
    (constituent : Constituent keepFunctions tokens tree) {above : List String} (inner : above ≠ [])
    (rest : List Token) :
    heard keepFunctions root above (tokens ++ rest) =
      audible above (remainingWords tree) ++ heard keepFunctions root above rest := by
  cases constituent with
  | @labelled text items children inside =>
    cases children with
    | nil =>
      cases inside with
      | nil =>
        have bare : bareWord root above (plainLabel keepFunctions text) =
            plainLabel keepFunctions text := if_neg fun outer => inner outer.1
        show audible above _ ++ _ = _
        rw [bare]
        rfl
    | cons child children =>
      rw [List.cons_append, List.cons_append, List.append_assoc, List.singleton_append,
        heard_labelled text (inside.starts _), inside.heard_append (List.cons_ne_nil _ _) rest,
        audible_cons, remainingWords_node _ (List.cons_ne_nil _ _), List.tail_cons]
  | @unlabelled first items child children head inside =>
    obtain ⟨inside', rfl⟩ := head.starts
    have opened : heard keepFunctions root above
        (.opening :: (.opening :: inside' ++ items ++ [.closing]) ++ rest) =
          heard keepFunctions root ("" :: above)
            (.opening :: inside' ++ (items ++ .closing :: rest)) := by
      simp [heard]
    rw [opened, head.heard_append (List.cons_ne_nil _ _), inside.heard_append (List.cons_ne_nil _ _),
      ← List.append_assoc, ← audible_append, audible_cons,
      remainingWords_node _ (List.cons_ne_nil _ _), List.flatMap_cons, List.tail_cons]

theorem Items.heard_append {items : List Token} {children : List Tree}
    (inside : Items keepFunctions items children) {above : List String} (inner : above ≠ [])
    (rest : List Token) :
    heard keepFunctions root above (items ++ .closing :: rest) =
      audible above (children.flatMap remainingWords) ++ heard keepFunctions root above.tail rest := by
  cases inside with
  | nil =>
    have silent : audible above [] = [] := ite_self _
    rw [List.flatMap_nil, silent]
    rfl
  | @word text items children later =>
    rw [List.flatMap_cons, audible_append, List.append_assoc, ← later.heard_append inner rest]
    rfl
  | constituent head later =>
    rw [List.append_assoc, head.heard_append inner, later.heard_append inner, List.flatMap_cons,
      audible_append, List.append_assoc]

end

/-- Of an outermost constituent what is left of the rooted tree is heard. -/
theorem Constituent.heard_eq {tokens : List Token} (rooted : root ≠ emptyLabel)
    (constituent : Constituent keepFunctions tokens tree) :
    heard keepFunctions root [] tokens = remainingWords (enroot root tree) := by
  have top (children : List Tree) (wide : children ≠ []) :
      remainingWords (.node root children) = children.flatMap remainingWords := by
    rw [remainingWords_node root wide, if_neg rooted]
  have named : emptyLabel ≠ "" := by decide
  cases constituent with
  | @labelled text items children inside =>
    generalize known : plainLabel keepFunctions text = label
    cases children with
    | nil =>
      cases inside with
      | nil =>
        show audible [] [bareWord root [] (plainLabel keepFunctions text)] ++ [] = _
        rw [known]
        by_cases replaced : label = "" ∨ label = root
        · simp [audible, bareWord, enroot, replaced]
          rfl
        · simp [audible, bareWord, enroot, replaced, top]
          rfl
    | cons child children =>
      have inner : heard keepFunctions root [label] (items ++ [.closing]) = _ :=
        inside.heard_append (List.cons_ne_nil label []) []
      rw [heard_labelled text (inside.starts _), known, inner, audible_cons]
      by_cases replaced : label = "" ∨ label = root
      · have clear : label ≠ emptyLabel := by
          rintro rfl
          exact replaced.elim named (Ne.symm rooted)
        simp [audible, enroot, replaced, clear, top, heard]
      · simp [audible, enroot, replaced, top, heard, remainingWords_node]
  | @unlabelled first items child children head inside =>
    obtain ⟨inside', rfl⟩ := head.starts
    have opened : heard keepFunctions root []
        (.opening :: (.opening :: inside' ++ items ++ [.closing])) =
          heard keepFunctions root [""] (.opening :: inside' ++ (items ++ [.closing])) := by
      simp [heard]
    rw [opened, head.heard_append (List.cons_ne_nil _ _), inside.heard_append (List.cons_ne_nil _ _)]
    simp [audible, enroot, named, top, heard]

/-- Tree by tree what is heard of a text are the words that are left; what is silent is dropped. -/
theorem Bracketing.exists_pieces {tokens : List Token} {trees : List Tree}
    (rooted : root ≠ emptyLabel) (bracketing : Bracketing keepFunctions tokens trees) :
    ∃ pieces : List (List Token), pieces.flatten = tokens ∧
      (∀ piece ∈ pieces, ∃ tree, Constituent keepFunctions piece tree) ∧
      (trees.filterMap fun tree => prune (enroot root tree)).map Tree.words =
        (pieces.map (heard keepFunctions root [])).filter (· ≠ []) := by
  induction bracketing with
  | nil => exact ⟨[], rfl, by simp, rfl⟩
  | @cons first rest tree trees head _ ih =>
    obtain ⟨pieces, joined, each, same⟩ := ih
    refine ⟨first :: pieces, by simp [joined], List.forall_mem_cons.mpr ⟨⟨tree, head⟩, each⟩, ?_⟩
    rw [List.map_cons, head.heard_eq rooted, remainingWords, List.filterMap_cons]
    cases prune (enroot root tree) with
    | none => simpa using same
    | some result => simpa [words_ne_nil result] using same

/-- Pruning keeps what is pronounced. A tree is left exactly if a word in it is pronounced; then all
words that are, and no others, are left in their order, with the constituents above them as they
were, and no empty element and nothing more to prune. The trees of a text are left with the words
that are heard of its outermost constituents, and there is one for every constituent of which
something is heard. -/
theorem pruning_keeps_pronounced :
    (∀ tree, ((∃ result, prune tree = some result) ↔ ∃ path word, Pronounced tree path word) ∧
      ∀ result, prune tree = some result → Emptied tree result) ∧
    ∀ keepFunctions root text trees, root ≠ emptyLabel → read root text keepFunctions = .ok trees →
      ∃ pieces : List (List Token), pieces.flatten = Token.scan text ∧
        (∀ piece ∈ pieces, ∃ tree, Constituent keepFunctions piece tree) ∧
        trees.map Tree.words = (pieces.map (heard keepFunctions root [])).filter (· ≠ []) := by
  refine ⟨fun tree => ⟨exists_prune_iff_pronounced, fun result => emptied_of_prune⟩, ?_⟩
  intro keepFunctions root text trees rooted accepted
  cases parsed : readNodes keepFunctions (Token.scan text) with
  | error fault =>
    rw [read, parsed] at accepted
    cases accepted
  | ok raw =>
    rw [read, parsed] at accepted
    obtain rfl := Except.ok.inj accepted
    exact (readNodes_eq_ok_iff.mp parsed).exists_pieces rooted

/-- A constituent that is empty because everything in it is, two words, an empty element around another
constituent, and one with nothing in it. -/
def gappyTree : Tree :=
  .node "S" [.node "NP" [.node "-NONE-" [.leaf "*T*"]],
    .node "VP" [.leaf "rained", .node "-NONE-" [.node "NP" [.leaf "0"]], .leaf "X"]]

/-- The same tree with marks on its labels, a tree with no words, and two constituents with nothing in
them but labels. -/
def gappyText : String :=
  "((S (NP-SBJ (-NONE- *T*)) (VP rained (-NONE- (NP 0)) (X=1)))) (-NONE- 0) (=1) (S (-NONE-))"

theorem gappyTree_pronounced :
    prune gappyTree = some (.node "S" [.node "VP" [.leaf "rained", .leaf "X"]]) ∧
      Emptied gappyTree (.node "S" [.node "VP" [.leaf "rained", .leaf "X"]]) ∧
      "ROOT" ≠ emptyLabel ∧
      read "ROOT" gappyText false =
        .ok [.node "ROOT" [.node "S" [.node "VP" [.leaf "rained", .leaf "X"]]], .leaf "ROOT",
          .node "ROOT" [.node "S" [.leaf "-NONE-"]]] ∧
      ∃ pieces : List (List Token), pieces.flatten = Token.scan gappyText ∧
        (∀ piece ∈ pieces, ∃ tree, Constituent false piece tree) ∧
        [["rained", "X"], ["ROOT"], ["-NONE-"]] =
          (pieces.map (heard false "ROOT" [])).filter (· ≠ []) := by
  have pruned : prune gappyTree = some (.node "S" [.node "VP" [.leaf "rained", .leaf "X"]]) := rfl
  have accepted : read "ROOT" gappyText false =
      .ok [.node "ROOT" [.node "S" [.node "VP" [.leaf "rained", .leaf "X"]]], .leaf "ROOT",
        .node "ROOT" [.node "S" [.leaf "-NONE-"]]] := by
    cbv
  obtain ⟨trees, texts⟩ := pruning_keeps_pronounced
  exact ⟨pruned, (trees gappyTree).2 _ pruned, by decide, accepted,
    texts false "ROOT" gappyText _ (by decide) accepted⟩

end LatentGrammar.Treebank
