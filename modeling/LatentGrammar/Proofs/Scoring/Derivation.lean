import LatentGrammar.Proofs.Dimensions
import LatentGrammar.Proofs.Exact
import LatentGrammar.Proofs.Scoring.Shape

/-! Latent derivations. A derivation of a tree chooses one substate for every node, and its weight
is the product of the rule and emission scores at its nodes. A tree has exponentially many
derivations; sums over all of them are what inside and outside scores are about. -/

namespace LatentGrammar

open Finset

/-- A choice of one substate for every node of a tree. -/
inductive Derivation where
  | preterminal (substate : Nat)
  | unary (substate : Nat) (child : Derivation)
  | binary (substate : Nat) (left right : Derivation)
  deriving Repr, DecidableEq

namespace Derivation

/-- The substate of the top node. -/
def top : Derivation → Nat
  | preterminal substate => substate
  | unary substate _ => substate
  | binary substate _ _ => substate

/-- The parts below all nodes, in the order of the subtrees of a tree. -/
def parts : Derivation → List Derivation
  | derivation@(preterminal _) => [derivation]
  | derivation@(unary _ child) => derivation :: child.parts
  | derivation@(binary _ left right) => derivation :: (left.parts ++ right.parts)

/-- The choice at the node with a given number, and at all nodes below it. -/
def part? (derivation : Derivation) (index : Nat) : Option Derivation := derivation.parts[index]?

@[simp] theorem part?_zero (derivation : Derivation) : derivation.part? 0 = some derivation := by
  cases derivation <;> rfl

theorem part?_left {s index : Nat} {left right : Derivation}
    (below : index < left.parts.length) :
    (binary s left right).part? (index + 1) = left.part? index := by
  simp only [part?, parts, List.getElem?_cons_succ]
  exact List.getElem?_append_left below

theorem part?_right (s index : Nat) (left right : Derivation) :
    (binary s left right).part? (left.parts.length + index + 1) = right.part? index := by
  simp only [part?, parts, List.getElem?_cons_succ]
  rw [List.getElem?_append_right (by omega), Nat.add_sub_cancel_left]

end Derivation

/-- The score of a word under one substate of a category; zero if the lexicon cannot tell. -/
def Lexicon.emission {α : Type} [Scalar α] (lexicon : Lexicon α) (word : String)
    (state position substate : Nat) : α :=
  match lexicon.score word state position with
  | .ok scores => (scores[substate]?).getD 0
  | .error _ => 0

namespace LatentTree

variable {α : Type}

/-- The number of words before the node with a given number: the position in the sentence where the
words below it start. -/
def wordsBefore (tree : LatentTree α) (index : Nat) : Nat :=
  (tree.subtrees.take index).countP isPreterminal

/-- All derivations of a tree: every choice of one of its substates for each node. -/
def derivations : LatentTree α → Finset Derivation
  | preterminal _ _ scores =>
    (range scores.inside.values.length).map ⟨.preterminal, fun _ _ => by simp⟩
  | unary _ scores child =>
    (range scores.inside.values.length ×ˢ child.derivations).map
      ⟨fun (s, d) => .unary s d, fun _ _ => by simp [Prod.ext_iff]⟩
  | binary _ scores left right =>
    (range scores.inside.values.length ×ˢ (left.derivations ×ˢ right.derivations)).map
      ⟨fun (s, l, r) => .binary s l r, fun _ _ => by simp [Prod.ext_iff]⟩

/-- The product of the scores at all nodes: of rules inside the tree, and of words, the first of
which stands at `position`. -/
def weight [Scalar α] (model : Model α) : Nat → LatentTree α → Derivation → α
  | position, preterminal state word _, .preterminal s => model.lexicon.emission word state position s
  | position, unary state _ child, .unary s d =>
    model.grammar.rules.cell (.unary state child.state) s d.top 0 * child.weight model position d
  | position, binary state _ left right, .binary s l r =>
    model.grammar.rules.cell (.binary state left.state right.state) s l.top r.top
      * (left.weight model position l * right.weight model (position + left.wordCount) r)
  | _, _, _ => 0

/-- The total weight of all derivations of a tree that stands at the start of a sentence. -/
def totalWeight [ExactScalar α] (model : Model α) (tree : LatentTree α) : α :=
  ∑ d ∈ tree.derivations, tree.weight model 0 d

/-- The posterior probability of what may be true of a derivation: its share of the total weight. -/
def probability [ExactScalar α] (model : Model α) (tree : LatentTree α) (event : Derivation → Prop)
    [DecidablePred event] : α :=
  (∑ d ∈ tree.derivations with event d, tree.weight model 0 d) / tree.totalWeight model

section Sums

variable {K : Type} [AddCommMonoid K] {state : Nat} {word : String} {scores : NodeScores α}
  {child left right : LatentTree α}

theorem sum_derivations_preterminal (f : Derivation → K) :
    ∑ d ∈ (preterminal state word scores).derivations, f d =
      ∑ s ∈ range scores.inside.values.length, f (.preterminal s) := by
  rw [derivations, sum_map]
  rfl

theorem sum_derivations_unary (f : Derivation → K) :
    ∑ d ∈ (unary state scores child).derivations, f d =
      ∑ s ∈ range scores.inside.values.length, ∑ d ∈ child.derivations, f (.unary s d) := by
  rw [derivations, sum_map, sum_product]
  rfl

theorem sum_derivations_binary (f : Derivation → K) :
    ∑ d ∈ (binary state scores left right).derivations, f d =
      ∑ s ∈ range scores.inside.values.length, ∑ l ∈ left.derivations, ∑ r ∈ right.derivations,
        f (.binary s l r) := by
  rw [derivations, sum_map, sum_product]
  apply sum_congr rfl
  intro s _
  rw [sum_product]
  rfl

end Sums

variable {tree child left right node : LatentTree α} {d : Derivation} {state : Nat}
  {scores : NodeScores α}

theorem preterminal_cases {word : String}
    (member : d ∈ (preterminal state word scores).derivations) :
    ∃ s, d = .preterminal s ∧ s < scores.inside.values.length := by
  simp only [derivations, mem_map, mem_range] at member
  obtain ⟨s, top, rfl⟩ := member
  exact ⟨s, rfl, top⟩

theorem unary_cases (member : d ∈ (unary state scores child).derivations) :
    ∃ s inner, d = .unary s inner ∧ s < scores.inside.values.length ∧
      inner ∈ child.derivations := by
  simp only [derivations, mem_map, mem_product, mem_range] at member
  obtain ⟨⟨s, inner⟩, ⟨top, below⟩, rfl⟩ := member
  exact ⟨s, inner, rfl, top, below⟩

theorem binary_cases (member : d ∈ (binary state scores left right).derivations) :
    ∃ s l r, d = .binary s l r ∧ s < scores.inside.values.length ∧ l ∈ left.derivations ∧
      r ∈ right.derivations := by
  simp only [derivations, mem_map, mem_product, mem_range] at member
  obtain ⟨⟨s, l, r⟩, ⟨top, leftBelow, rightBelow⟩, rfl⟩ := member
  exact ⟨s, l, r, rfl, top, leftBelow, rightBelow⟩

theorem top_lt_of_mem (member : d ∈ tree.derivations) : d.top < tree.substates := by
  cases tree with
  | preterminal state word scores =>
    obtain ⟨s, rfl, top⟩ := preterminal_cases member
    exact top
  | unary state scores child =>
    obtain ⟨s, inner, rfl, top, -⟩ := unary_cases member
    exact top
  | binary state scores left right =>
    obtain ⟨s, l, r, rfl, top, -, -⟩ := binary_cases member
    exact top

theorem length_parts (member : d ∈ tree.derivations) :
    d.parts.length = tree.subtrees.length := by
  induction tree generalizing d with
  | preterminal state word scores =>
    obtain ⟨s, rfl, -⟩ := preterminal_cases member
    rfl
  | unary state scores child ih =>
    obtain ⟨s, inner, rfl, -, below⟩ := unary_cases member
    exact congrArg (· + 1) (ih below)
  | binary state scores left right leftIh rightIh =>
    obtain ⟨s, l, r, rfl, -, leftBelow, rightBelow⟩ := binary_cases member
    simp only [Derivation.parts, subtrees, List.length_cons, List.length_append, leftIh leftBelow,
      rightIh rightBelow]

/-- `At tree index before node`: the node of `tree` with number `index` is the top of `node`, and
`before` words stand before it. -/
inductive At : LatentTree α → Nat → Nat → LatentTree α → Prop where
  | top (tree : LatentTree α) : At tree 0 0 tree
  | only (state : Nat) (scores : NodeScores α) {child node : LatentTree α} {index before : Nat} :
      At child index before node → At (unary state scores child) (index + 1) before node
  | left (state : Nat) (scores : NodeScores α) {left node : LatentTree α} (right : LatentTree α)
      {index before : Nat} :
      At left index before node → At (binary state scores left right) (index + 1) before node
  | right (state : Nat) (scores : NodeScores α) (left : LatentTree α) {right node : LatentTree α}
      {index before : Nat} :
      At right index before node →
        At (binary state scores left right) (left.subtrees.length + index + 1)
          (left.wordCount + before) node

theorem countP_subtrees (tree : LatentTree α) :
    tree.subtrees.countP isPreterminal = tree.wordCount := by
  induction tree with
  | preterminal => rfl
  | unary _ _ _ ih => simpa [subtrees, isPreterminal, wordCount] using ih
  | binary _ _ _ _ left right => simp [subtrees, isPreterminal, wordCount, left, right]

theorem At.found {index before : Nat} (at_ : tree.At index before node) :
    tree.subtrees[index]? = some node := by
  induction at_ with
  | top tree => cases tree <;> rfl
  | only _ _ _ ih => simpa [subtrees] using ih
  | left _ _ _ _ ih =>
    rw [subtrees, List.getElem?_cons_succ, List.getElem?_append_left]
    · exact ih
    · exact (List.getElem?_eq_some_iff.mp ih).1
  | right _ _ _ _ ih =>
    rw [subtrees, List.getElem?_cons_succ, List.getElem?_append_right (by omega),
      Nat.add_sub_cancel_left]
    exact ih

theorem at_of_getElem? {index : Nat} (found : tree.subtrees[index]? = some node) :
    tree.At index (tree.wordsBefore index) node := by
  induction tree generalizing index with
  | preterminal state word scores =>
    cases index with
    | zero =>
      obtain rfl : _ = node := by simpa [subtrees] using found
      exact .top _
    | succ index => simp [subtrees] at found
  | unary state scores child ih =>
    cases index with
    | zero =>
      obtain rfl : _ = node := by simpa [subtrees] using found
      exact .top _
    | succ index =>
      have before : (unary state scores child).wordsBefore (index + 1) = child.wordsBefore index := by
        simp [wordsBefore, subtrees, isPreterminal]
      rw [before]
      exact .only state scores (ih (by simpa [subtrees] using found))
  | binary state scores left right leftIh rightIh =>
    cases index with
    | zero =>
      obtain rfl : _ = node := by simpa [subtrees] using found
      exact .top _
    | succ index =>
      rw [subtrees, List.getElem?_cons_succ] at found
      by_cases inLeft : index < left.subtrees.length
      · rw [List.getElem?_append_left inLeft] at found
        have before :
            (binary state scores left right).wordsBefore (index + 1) = left.wordsBefore index := by
          simp [wordsBefore, subtrees, isPreterminal, List.take_append_of_le_length inLeft.le]
        rw [before]
        exact .left state scores right (leftIh found)
      · obtain ⟨offset, rfl⟩ := Nat.exists_eq_add_of_le (Nat.le_of_not_lt inLeft)
        rw [List.getElem?_append_right (by omega), Nat.add_sub_cancel_left] at found
        have before : (binary state scores left right).wordsBefore (left.subtrees.length + offset + 1)
            = left.wordCount + right.wordsBefore offset := by
          rw [← countP_subtrees left]
          simp [wordsBefore, subtrees, isPreterminal, List.take_append,
            List.take_of_length_le (Nat.le_add_right left.subtrees.length offset)]
        rw [before]
        exact .right state scores left (rightIh found)

@[simp] theorem derivations_cleared (tree : LatentTree α) [Scalar α] :
    tree.cleared.derivations = tree.derivations := by
  induction tree with
  | preterminal => simp [cleared, derivations, NodeScores.cleared]
  | unary _ _ _ ih => simp [cleared, derivations, NodeScores.cleared, ih]
  | binary _ _ _ _ left right => simp [cleared, derivations, NodeScores.cleared, left, right]

@[simp] theorem weight_cleared [Scalar α] (model : Model α) (position : Nat) (tree : LatentTree α)
    (d : Derivation) : tree.cleared.weight model position d = tree.weight model position d := by
  induction tree generalizing position d with
  | preterminal => cases d <;> rfl
  | unary _ _ _ ih => cases d <;> simp [cleared, weight, ih]
  | binary _ _ _ _ left right => cases d <;> simp [cleared, weight, left, right]

namespace Alike

variable [Scalar α] {first second : LatentTree α}

theorem derivations_eq (alike : first.Alike second) : first.derivations = second.derivations := by
  simpa using congrArg derivations alike

theorem weight_eq (alike : first.Alike second) (model : Model α) (position : Nat) :
    first.weight model position = second.weight model position := by
  funext d
  simpa using congrArg (fun tree => weight model position tree d) alike

theorem unary_cases {state : Nat} {scores : NodeScores α} {child scored : LatentTree α}
    (alike : scored.Alike (unary state scores child)) :
    ∃ other inner, scored = unary state other inner ∧ inner.Alike child := by
  cases scored with
  | unary _ other inner =>
    simp only [Alike, cleared, unary.injEq] at alike
    obtain ⟨rfl, -, below⟩ := alike
    exact ⟨other, inner, rfl, below⟩
  | _ => simp [Alike, cleared] at alike

theorem binary_cases {state : Nat} {scores : NodeScores α} {left right scored : LatentTree α}
    (alike : scored.Alike (binary state scores left right)) :
    ∃ other innerLeft innerRight, scored = binary state other innerLeft innerRight ∧
      innerLeft.Alike left ∧ innerRight.Alike right := by
  cases scored with
  | binary _ other innerLeft innerRight =>
    simp only [Alike, cleared, binary.injEq] at alike
    obtain ⟨rfl, -, leftBelow, rightBelow⟩ := alike
    exact ⟨other, innerLeft, innerRight, rfl, leftBelow, rightBelow⟩
  | _ => simp [Alike, cleared] at alike

theorem length_subtrees (alike : first.Alike second) :
    first.subtrees.length = second.subtrees.length := by
  induction second generalizing first with
  | preterminal =>
    cases first with
    | preterminal => rfl
    | _ => simp [Alike, cleared] at alike
  | unary _ _ _ ih =>
    obtain ⟨_, inner, rfl, below⟩ := alike.unary_cases
    simp only [subtrees, List.length_cons, ih below]
  | binary _ _ _ _ leftIh rightIh =>
    obtain ⟨_, _, _, rfl, leftBelow, rightBelow⟩ := alike.binary_cases
    simp only [subtrees, List.length_cons, List.length_append, leftIh leftBelow,
      rightIh rightBelow]

theorem at_ (alike : first.Alike second) {index before : Nat} {node : LatentTree α}
    (there : second.At index before node) :
    ∃ result, first.At index before result ∧ result.Alike node := by
  induction there generalizing first with
  | top tree => exact ⟨first, .top first, alike⟩
  | only state scores _ ih =>
    obtain ⟨other, inner, rfl, below⟩ := alike.unary_cases
    obtain ⟨result, here, same⟩ := ih below
    exact ⟨result, .only state other here, same⟩
  | left state scores right _ ih =>
    obtain ⟨other, innerLeft, innerRight, rfl, leftBelow, -⟩ := alike.binary_cases
    obtain ⟨result, here, same⟩ := ih leftBelow
    exact ⟨result, .left state other innerRight here, same⟩
  | right state scores left _ ih =>
    obtain ⟨other, innerLeft, innerRight, rfl, leftBelow, rightBelow⟩ := alike.binary_cases
    obtain ⟨result, here, same⟩ := ih rightBelow
    rw [← leftBelow.length_subtrees, ← leftBelow.wordCount_eq]
    exact ⟨result, .right state other innerLeft here, same⟩

end Alike

end LatentTree

/-- A model of two categories, the second of which covers words as well as pairs of its own kind. -/
def sampleModel : Model Rat where
  grammar :=
    { substates := [1, 2]
      root := 0
      smoothing := .none
      threshold := 0
      ancestry := [⟨[some 0]⟩, ⟨[some 0, some 0]⟩]
      rules := ⟨[(.unary 0 1, ⟨1, 2, 1, #[1 / 2, 1 / 2]⟩),
        (.binary 1 1 1, ⟨2, 2, 2, #[1 / 4, 1 / 4, 0, 1 / 2, 0, 1 / 8, 1 / 8, 0]⟩)]⟩ }
  lexicon :=
    { substates := [1, 2]
      root := 0
      settings := ⟨.simple, 0, 0, 0, 0⟩
      smoothing := .none
      ancestry := [⟨[some 0]⟩, ⟨[some 0, some 0]⟩]
      tables :=
        { tagCounts := [[0], [2, 4]]
          wordCounts := [[], [("rain", [2, 1]), ("fell", [0, 3])]]
          wordTotals := [("rain", 3), ("fell", 3)]
          totalTokens := 6
          unseenTagCounts := [[0], [0, 0]]
          unseenSignatureCounts := [[], []]
          unseenSignatureTotals := []
          unseenTotal := 0 } }

/-- Nothing scored yet. -/
def blankScores (size : Nat) : NodeScores Rat :=
  ⟨⟨List.replicate size 0, 0⟩, ⟨List.replicate size 0, 0⟩⟩

def sampleTree : LatentTree Rat :=
  .unary 0 (blankScores 1)
    (.binary 1 (blankScores 2) (.preterminal 1 "rain" (blankScores 2))
      (.preterminal 1 "fell" (blankScores 2)))

theorem sampleModel_rules_fit :
    sampleModel.grammar.rules.Fits sampleModel.grammar.substates := by
  simp only [RuleTable.Fits, sampleModel, List.forall_mem_cons]
  exact ⟨⟨1, 2, 1, rfl, rfl, rfl, rfl, rfl⟩, ⟨2, 2, 2, rfl, rfl, rfl, rfl, rfl⟩, by simp⟩

theorem sampleModel_lexicon_consistent : sampleModel.lexicon.Consistent where
  ancestry := by simp [sampleModel, Ancestry.Fits, Ancestry.size]
  tables := by
    constructor <;> simp [sampleModel, HasSize, NameTable.Fits]

theorem sampleTree_fits : sampleTree.Fits sampleModel.substates := by
  have sized (size state : Nat) (found : sampleModel.substates[state]? = some size)
      (room : size < Word.tableLimit) :
      (blankScores size).Fits sampleModel.substates state :=
    ⟨by simpa [blankScores] using found, by simp [blankScores], by simpa [blankScores] using room⟩
  simp only [sampleTree, LatentTree.fits_unary, LatentTree.fits_binary, LatentTree.fits_preterminal]
  have one := sized 1 0 rfl (by decide)
  have two := sized 2 1 rfl (by decide)
  exact ⟨one, two, two, two⟩

end LatentGrammar
