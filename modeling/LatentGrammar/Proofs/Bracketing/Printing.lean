import LatentGrammar.Proofs.Bracketing.Grammar

namespace LatentGrammar.Treebank

/-- The characters between words. -/
def isDelimiter (c : Char) : Bool := c == '(' || c == ')' || Unicode.isBlank c

/-- The text is a single word for the reader. -/
def Plain (text : String) : Prop := text ≠ "" ∧ ∀ c ∈ text.toList, isDelimiter c = false

/-- The label starts with a dash, or has no index mark, and no function mark unless those are kept. -/
def Unmarked (keepFunctions : Bool) (label : String) : Prop :=
  label.toList.head? = some '-' ∨
    ∀ c ∈ label.toList, c ≠ '=' ∧ (keepFunctions = true ∨ c ≠ '-')

/-- A constituent under the root label of which the reader changes no label and drops no part. -/
structure Printable (keepFunctions : Bool) (root : String) (tree : Tree) : Prop where
  rooted : tree.label = root
  constituent : tree.isLeaf = false
  labels : ∀ label ∈ tree.categories,
    Plain label ∧ Unmarked keepFunctions label ∧ label ≠ emptyLabel
  words : ∀ word ∈ tree.words, Plain word

/-- The texts of trees one after the other, with any blanks before, between and after them. -/
inductive Spaced : List Tree → List Char → Prop where
  | nil {gap : List Char} (blank : ∀ c ∈ gap, Unicode.isBlank c = true) : Spaced [] gap
  | cons {gap text : List Char} {tree : Tree} {trees : List Tree}
      (blank : ∀ c ∈ gap, Unicode.isBlank c = true) (later : Spaced trees text) :
      Spaced (tree :: trees) (gap ++ tree.render.toList ++ text)

/-- Labels without marks are those that nothing is cut off from. -/
theorem plainLabel_eq_self_iff {keepFunctions : Bool} {label : String} :
    plainLabel keepFunctions label = label ↔ Unmarked keepFunctions label := by
  have kept (c : Char) : (c != '=' && (keepFunctions || c != '-')) = true ↔
      c ≠ '=' ∧ (keepFunctions = true ∨ c ≠ '-') := by
    simp
  unfold plainLabel Unmarked
  cases characters : label.toList with
  | nil => simp [String.toList_eq_nil_iff.mp characters]
  | cons first rest =>
    by_cases dash : first = '-'
    · subst dash
      simp
    · have marked : (first :: rest).head? ≠ some '-' := by simpa using dash
      simp only [or_iff_right marked, ← kept]
      split
      · rename_i same
        exact absurd (List.cons.inj same).1 dash
      · rw [← List.takeWhile_eq_self_iff, ← String.toList_inj, String.toList_ofList, characters]

mutual

/-- The tokens in the text of a tree. -/
def tokens : Tree → List Token
  | .node word [] => [.word word]
  | .node label (first :: rest) =>
    .opening :: .word label :: (tokens first ++ tokensOf rest ++ [.closing])

def tokensOf : List Tree → List Token
  | [] => []
  | tree :: rest => tokens tree ++ tokensOf rest

end

variable {keepFunctions : Bool}

namespace Token

/-- The text is at its end or goes on with a character that ends a word. -/
def Ends (text : List Char) : Prop := ∀ c ∈ text.head?, isDelimiter c = true

theorem scanAfter_ends {text : List Char} (ends : Ends text) (pending : List Char) :
    scanAfter pending text = flush pending (scanAfter [] text) := by
  cases text with
  | nil => rfl
  | cons c rest =>
    have delimiter : isDelimiter c = true := ends c rfl
    unfold scanAfter
    simp only [isDelimiter, Bool.or_eq_true] at delimiter
    split
    · rfl
    · split
      · rfl
      · simp_all [flush]

theorem scanAfter_append {chars : List Char} (plain : ∀ c ∈ chars, isDelimiter c = false)
    (pending rest : List Char) :
    scanAfter pending (chars ++ rest) = scanAfter (chars.reverse ++ pending) rest := by
  induction chars generalizing pending with
  | nil => rfl
  | cons c chars ih =>
    obtain ⟨here, later⟩ := List.forall_mem_cons.mp plain
    have step : scanAfter pending (c :: (chars ++ rest)) = scanAfter (c :: pending) (chars ++ rest) := by
      simp only [isDelimiter, Bool.or_eq_false_iff] at here
      simp [scanAfter, here]
    rw [List.cons_append, step, ih later, List.reverse_cons, List.append_assoc,
      List.singleton_append]

theorem scan_word {word : String} (plain : Plain word) {rest : List Char} (ends : Ends rest) :
    scanAfter [] (word.toList ++ rest) = .word word :: scanAfter [] rest := by
  obtain ⟨nonempty, plain⟩ := plain
  have some : word.toList ≠ [] := by simpa using nonempty
  rw [scanAfter_append plain, scanAfter_ends ends]
  simp [flush, some]

theorem scan_blanks {gap : List Char} (blank : ∀ c ∈ gap, Unicode.isBlank c = true)
    (rest : List Char) : scanAfter [] (gap ++ rest) = scanAfter [] rest := by
  induction gap with
  | nil => rfl
  | cons c gap ih =>
    obtain ⟨here, later⟩ := List.forall_mem_cons.mp blank
    have bracket : c ≠ '(' ∧ c ≠ ')' := by
      constructor <;>
      · rintro rfl
        cases here
    simp [scanAfter, bracket, here, flush, ih later]

theorem scan_opening (rest : List Char) : scanAfter [] ('(' :: rest) = .opening :: scanAfter [] rest :=
  rfl

theorem scan_closing (rest : List Char) : scanAfter [] (')' :: rest) = .closing :: scanAfter [] rest :=
  rfl

theorem ends_renderRest (trees : List Tree) (rest : List Char) :
    Ends ((Tree.renderRest trees).toList ++ ')' :: rest) := by
  cases trees with
  | nil => simp [Ends, Tree.renderRest, isDelimiter]
  | cons tree later => simp [Ends, Tree.renderRest, isDelimiter]; rfl

theorem scan_space (rest : List Char) : scanAfter [] (' ' :: rest) = scanAfter [] rest := rfl

end Token

mutual

/-- The text of a tree is cut into its tokens, whatever follows it. -/
theorem scan_render {tree : Tree} (labels : ∀ label ∈ tree.categories, Plain label)
    (words : ∀ word ∈ tree.words, Plain word) {rest : List Char} (ends : Token.Ends rest) :
    Token.scanAfter [] (tree.render.toList ++ rest) = tokens tree ++ Token.scanAfter [] rest := by
  match tree with
  | .node word [] =>
    simp only [Tree.words, List.forall_mem_singleton] at words
    simp only [Tree.render, tokens, Token.scan_word words ends, List.singleton_append]
  | .node label (first :: later) =>
    simp only [Tree.words, List.forall_mem_append] at words
    simp only [Tree.categories, List.forall_mem_cons, List.forall_mem_append] at labels
    obtain ⟨here, inFirst, inLater⟩ := labels
    have text : (Tree.node label (first :: later)).render.toList ++ rest = '(' :: (label.toList ++
        ' ' :: (first.render.toList ++ ((Tree.renderRest later).toList ++ ')' :: rest))) := by
      simp [Tree.render]
    rw [text, Token.scan_opening, Token.scan_word here (by simp [Token.Ends, isDelimiter]; rfl),
      Token.scan_space, scan_render inFirst words.1 (Token.ends_renderRest later rest),
      scan_renderRest inLater words.2]
    simp [tokens]

theorem scan_renderRest {trees : List Tree} (labels : ∀ label ∈ Tree.categoriesOf trees, Plain label)
    (words : ∀ word ∈ Tree.wordsOf trees, Plain word) (rest : List Char) :
    Token.scanAfter [] ((Tree.renderRest trees).toList ++ ')' :: rest) =
      tokensOf trees ++ .closing :: Token.scanAfter [] rest := by
  match trees with
  | [] => exact Token.scan_closing rest
  | tree :: later =>
    simp only [Tree.wordsOf, List.forall_mem_append] at words
    simp only [Tree.categoriesOf, List.forall_mem_append] at labels
    have text : (Tree.renderRest (tree :: later)).toList ++ ')' :: rest =
        ' ' :: (tree.render.toList ++ ((Tree.renderRest later).toList ++ ')' :: rest)) := by
      simp [Tree.renderRest]
    rw [text, Token.scan_space, scan_render labels.1 words.1 (Token.ends_renderRest later rest),
      scan_renderRest labels.2 words.2]
    simp [tokensOf]

end

theorem Spaced.ends {trees : List Tree} {text : List Char} (spaced : Spaced trees text)
    (constituents : ∀ tree ∈ trees, tree.isLeaf = false) : Token.Ends text := by
  have starts {gap rest : List Char} (blank : ∀ c ∈ gap, Unicode.isBlank c = true)
      (ends : Token.Ends rest) : Token.Ends (gap ++ rest) := by
    cases gap with
    | nil => exact ends
    | cons c gap => simp [Token.Ends, isDelimiter, blank c List.mem_cons_self]
  cases spaced with
  | nil blank =>
    have nothing : Token.Ends [] := by simp [Token.Ends]
    simpa using starts blank nothing
  | @cons gap text tree trees blank later =>
    rw [List.append_assoc]
    refine starts blank ?_
    have constituent := constituents tree List.mem_cons_self
    obtain ⟨label, _ | ⟨first, rest⟩⟩ := tree
    · cases constituent
    · simp [Tree.render, Token.Ends, isDelimiter]

theorem scan_spaced {trees : List Tree} {text : List Char} (spaced : Spaced trees text)
    (constituents : ∀ tree ∈ trees, tree.isLeaf = false)
    (labels : ∀ tree ∈ trees, ∀ label ∈ tree.categories, Plain label)
    (words : ∀ tree ∈ trees, ∀ word ∈ tree.words, Plain word) :
    Token.scanAfter [] text = tokensOf trees := by
  induction spaced with
  | @nil gap blank => simpa [Token.scanAfter, Token.flush, tokensOf] using Token.scan_blanks blank []
  | cons blank later ih =>
    rw [List.forall_mem_cons] at constituents labels words
    rw [List.append_assoc, Token.scan_blanks blank,
      scan_render labels.1 words.1 (later.ends constituents.2),
      ih constituents.2 labels.2 words.2, tokensOf]

mutual

theorem constituent_tokens {tree : Tree} (constituent : tree.isLeaf = false)
    (whole : ∀ label ∈ tree.categories, plainLabel keepFunctions label = label) :
    Constituent keepFunctions (tokens tree) tree := by
  match tree with
  | .node _ [] => cases constituent
  | .node label (first :: later) =>
    simp only [Tree.categories, List.forall_mem_cons] at whole
    obtain ⟨here, inside⟩ := whole
    have items : Items keepFunctions (tokensOf (first :: later)) (first :: later) :=
      items_tokensOf inside
    have labelled : Constituent keepFunctions
        (.opening :: .word label :: (tokensOf (first :: later) ++ [.closing]))
        (.node (plainLabel keepFunctions label) (first :: later)) := .labelled items
    simpa [tokens, tokensOf, here] using labelled

theorem items_tokensOf {trees : List Tree}
    (whole : ∀ label ∈ Tree.categoriesOf trees, plainLabel keepFunctions label = label) :
    Items keepFunctions (tokensOf trees) trees := by
  match trees with
  | [] => exact .nil
  | .node word [] :: later =>
    simp only [Tree.categoriesOf, List.forall_mem_append] at whole
    exact .word (items_tokensOf whole.2)
  | .node label (first :: rest) :: later =>
    simp only [Tree.categoriesOf, List.forall_mem_append] at whole
    exact .constituent (constituent_tokens rfl whole.1) (items_tokensOf whole.2)

end

theorem bracketing_tokensOf {trees : List Tree} (constituents : ∀ tree ∈ trees, tree.isLeaf = false)
    (whole : ∀ tree ∈ trees, ∀ label ∈ tree.categories, plainLabel keepFunctions label = label) :
    Bracketing keepFunctions (tokensOf trees) trees := by
  induction trees with
  | nil => exact .nil
  | cons tree later ih =>
    rw [List.forall_mem_cons] at constituents whole
    exact .cons (constituent_tokens constituents.1 whole.1) (ih constituents.2 whole.2)

mutual

theorem prune_eq_some {tree : Tree} (pronounced : ∀ label ∈ tree.categories, label ≠ emptyLabel) :
    prune tree = some tree := by
  match tree with
  | .node word [] => rfl
  | .node label (first :: later) =>
    simp only [Tree.categories, List.forall_mem_cons] at pronounced
    obtain ⟨here, inside⟩ := pronounced
    have kept : pruneAll (first :: later) = first :: later := pruneAll_eq_self inside
    simp [prune, here, kept]

theorem pruneAll_eq_self {trees : List Tree}
    (pronounced : ∀ label ∈ Tree.categoriesOf trees, label ≠ emptyLabel) :
    pruneAll trees = trees := by
  match trees with
  | [] => rfl
  | tree :: later =>
    simp only [Tree.categoriesOf, List.forall_mem_append] at pronounced
    simp [pruneAll, prune_eq_some pronounced.1, pruneAll_eq_self pronounced.2]

end

theorem enroot_eq_self {root : String} {tree : Tree} (rooted : tree.label = root) :
    enroot root tree = tree := by
  obtain ⟨label, children⟩ := tree
  obtain rfl : label = root := rooted
  simp [enroot, Tree.label, Tree.children]

/-- Trees are read back from their texts, whatever blanks stand around them. -/
theorem read_spaced_texts {keepFunctions : Bool} {root : String} {trees : List Tree} {text : String}
    (printable : ∀ tree ∈ trees, Printable keepFunctions root tree)
    (spaced : Spaced trees text.toList) : read root text keepFunctions = .ok trees := by
  have scanned : Token.scan text = tokensOf trees :=
    scan_spaced spaced (fun tree member => (printable tree member).constituent)
      (fun tree member label known => ((printable tree member).labels label known).1)
      (fun tree member => (printable tree member).words)
  have bracketing : Bracketing keepFunctions (tokensOf trees) trees :=
    bracketing_tokensOf (fun tree member => (printable tree member).constituent)
      fun tree member label known =>
        plainLabel_eq_self_iff.mpr ((printable tree member).labels label known).2.1
  have unchanged : ∀ tree ∈ trees, prune (enroot root tree) = some tree := by
    intro tree member
    rw [enroot_eq_self (printable tree member).rooted]
    exact prune_eq_some fun label known => ((printable tree member).labels label known).2.2
  rw [read, scanned, readNodes_of_bracketing bracketing]
  show Except.ok (trees.filterMap fun tree => prune (enroot root tree)) = _
  rw [List.filterMap_congr unchanged, List.filterMap_some]

/-- Words beside constituents, a root inside a tree, and a label that starts with a dash. -/
def sampleTrees : List Tree :=
  [.node "ROOT" [.node "S" [.leaf "well", .node "-LRB-" [.leaf "x-1"]], .node "ROOT" [.leaf "="]],
    .node "ROOT" [.leaf "go"]]

theorem sampleTrees_read : (∀ tree ∈ sampleTrees, Printable false "ROOT" tree) ∧
    Spaced sampleTrees "(ROOT (S well (-LRB- x-1)) (ROOT =))\n (ROOT go)".toList ∧
    read "ROOT" "(ROOT (S well (-LRB- x-1)) (ROOT =))\n (ROOT go)" false = .ok sampleTrees := by
  have printable : ∀ tree ∈ sampleTrees, Printable false "ROOT" tree := by
    intro tree member
    rcases List.mem_pair.mp member with rfl | rfl
    · refine ⟨rfl, rfl, ?_, ?_⟩
      · simp [Tree.leaf, Tree.categories, Tree.categoriesOf, Plain, Unmarked, emptyLabel]
        decide
      · simp [Tree.leaf, Tree.words, Tree.wordsOf, Plain]
        decide
    · refine ⟨rfl, rfl, ?_, ?_⟩
      · simp [Tree.leaf, Tree.categories, Tree.categoriesOf, Plain, Unmarked, emptyLabel]
        decide
      · simp [Tree.leaf, Tree.words, Tree.wordsOf, Plain]
        decide
  have spaced : Spaced sampleTrees "(ROOT (S well (-LRB- x-1)) (ROOT =))\n (ROOT go)".toList := by
    have pieces : Spaced sampleTrees ([] ++ _ ++ (['\n', ' '] ++ _ ++ [])) :=
      .cons (by simp) (.cons (by simp [Unicode.isBlank]) (.nil (by simp)))
    simpa [Tree.leaf, Tree.render, Tree.renderRest] using pieces
  exact ⟨printable, spaced, read_spaced_texts printable spaced⟩

end LatentGrammar.Treebank
