import LatentGrammar.Proofs.Counting.RuleSums
import LatentGrammar.Proofs.Counting.VisitSums

namespace LatentGrammar

open Finset

variable {α : Type} [ExactScalar α]

/-- The substates at the top and right below it, if a rule is used there. -/
def Derivation.triple? : Derivation → Option (Nat × Nat × Nat)
  | preterminal _ => none
  | unary s child => some (s, child.top, 0)
  | binary s left right => some (s, left.top, right.top)

theorem sum_map_eq_sum_range {ι K : Type} [AddCommMonoid K] (items : List ι) (f : ι → K) :
    (items.map f).sum = ∑ n ∈ range items.length, (items[n]?).elim 0 f := by
  induction items with
  | nil => rfl
  | cons item rest ih =>
    rw [List.map_cons, List.sum_cons, List.length_cons, sum_range_succ', ih, add_comm]
    rfl

namespace LatentTree

variable {model : Model α} {substates : List Nat} {tree node : LatentTree α}
  {index before : Nat} {key : Production} {s : Nat}

/-- The expected number of nodes of some kind at which something is true of a derivation: the sum of
the posterior probabilities that it is, over all nodes of this kind. -/
def expected (model : Model α) (tree : LatentTree α) (kind : LatentTree α → Prop)
    [DecidablePred kind] (event : Derivation → Prop) [DecidablePred event] : α :=
  ∑ index ∈ range tree.size with ∃ node ∈ tree.subtrees[index]?, kind node,
    tree.probability model fun d => ∃ part ∈ d.part? index, event part

/-- The expected number of uses of a rule with given substates of its categories. -/
def expectedUses (model : Model α) (tree : LatentTree α) (key : Production) (i j k : Nat) : α :=
  tree.expected model (·.rule? = some key) (·.triple? = some (i, j, k))

/-- The expected number of words that stand under a substate of a tag. -/
def expectedTags (model : Model α) (tree : LatentTree α) (state s : Nat) : α :=
  tree.expected model (fun node => node.isPreterminal ∧ node.state = state) (·.top = s)

/-- The expected number of visits to a substate of a category. -/
def expectedVisits (model : Model α) (tree : LatentTree α) (state s : Nat) : α :=
  tree.expected model (·.state = state) (·.top = s)

omit [ExactScalar α] in
theorem length_subtrees_eq_size (tree : LatentTree α) :
    tree.subtrees.length = tree.size := by
  induction tree with
  | preterminal => rfl
  | unary _ _ _ ih => rw [subtrees, size, List.length_cons, ih]
  | binary _ _ _ _ left right =>
    rw [subtrees, size, List.length_cons, List.length_append, left, right]

theorem subtrees_cleared (tree : LatentTree α) :
    tree.cleared.subtrees = tree.subtrees.map cleared := by
  induction tree with
  | preterminal => rfl
  | unary _ _ _ ih => simp [subtrees, cleared, ih]
  | binary _ _ _ _ left right => simp [subtrees, cleared, left, right]

theorem rule?_cleared (tree : LatentTree α) : tree.cleared.rule? = tree.rule? := by
  cases tree <;> simp [rule?, cleared]

omit [ExactScalar α] in
theorem rule?_parent (expands : tree.rule? = some key) : key.parent = tree.state := by
  cases tree with
  | preterminal => cases expands
  | unary =>
    obtain rfl := Option.some.inj expands
    rfl
  | binary =>
    obtain rfl := Option.some.inj expands
    rfl

theorem isPreterminal_cleared (tree : LatentTree α) :
    tree.cleared.isPreterminal = tree.isPreterminal := by
  cases tree <;> rfl

namespace Alike

variable {first second : LatentTree α}

omit [ExactScalar α] in
theorem size_eq [Scalar α] (alike : first.Alike second) : first.size = second.size := by
  rw [← first.length_subtrees_eq_size, ← second.length_subtrees_eq_size, alike.length_subtrees]

/-- Expected numbers do not depend on scores that have been computed before. -/
theorem expected_eq (alike : first.Alike second)
    {kind : LatentTree α → Prop} [DecidablePred kind] (blind : ∀ node, kind node.cleared ↔ kind node)
    (event : Derivation → Prop) [DecidablePred event] :
    first.expected model kind event = second.expected model kind event := by
  have cleared_iff (tree : LatentTree α) (index : Nat) :
      (∃ node ∈ tree.subtrees[index]?, kind node) ↔
        ∃ node ∈ tree.cleared.subtrees[index]?, kind node := by
    rw [subtrees_cleared, List.getElem?_map]
    cases tree.subtrees[index]? with
    | none => simp
    | some node => simp [blind]
  unfold expected
  rw [alike.size_eq]
  apply sum_congr
  · apply filter_congr
    intro index _
    rw [cleared_iff first, cleared_iff second, show first.cleared = second.cleared from alike]
  · intro index _
    exact alike.probability_eq model _

theorem expectedUses_eq (alike : first.Alike second) (key : Production) (i j k : Nat) :
    first.expectedUses model key i j k = second.expectedUses model key i j k := by
  apply alike.expected_eq
  intro node
  rw [rule?_cleared]

theorem expectedTags_eq (alike : first.Alike second) (state s : Nat) :
    first.expectedTags model state s = second.expectedTags model state s := by
  apply alike.expected_eq
  intro node
  rw [isPreterminal_cleared, state_cleared]

theorem expectedVisits_eq (alike : first.Alike second) (state s : Nat) :
    first.expectedVisits model state s = second.expectedVisits model state s := by
  apply alike.expected_eq
  intro node
  rw [state_cleared]

end Alike

/-- Of the derivations of a unary node, those with given substates at the top and below it have the
weight of the rule's use. -/
theorem InsideExact.sum_triple_unary {state a b : Nat} {scores : NodeScores α}
    {child : LatentTree α} (inside : (unary state scores child).InsideExact model before)
    (inParent : a < scores.inside.values.length) (inLeft : b < child.substates) :
    ∑ d ∈ (unary state scores child).derivations, (if d.triple? = some (a, b, 0) then
        scores.outside.score d.top * (unary state scores child).weight model before d else 0) =
      (unary state scores child).use model.grammar a b 0 := by
  let cell := model.grammar.rules.cell (.unary state child.state)
  rw [sum_derivations_unary]
  calc ∑ s ∈ range scores.inside.values.length, ∑ d ∈ child.derivations,
        (if (Derivation.unary s d).triple? = some (a, b, 0) then
          scores.outside.score s * (cell s d.top 0 * child.weight model before d) else 0)
    _ = ∑ s ∈ range scores.inside.values.length, ∑ d ∈ child.derivations,
        (if s = a ∧ d.top = b then scores.outside.score s * cell s d.top 0 else 0)
          * child.weight model before d := by
        refine sum_congr rfl fun s _ => sum_congr rfl fun d _ => ?_
        simp [Derivation.triple?, ite_mul, mul_assoc]
    _ = ∑ s ∈ range scores.inside.values.length, ∑ j ∈ range child.substates,
        (if s = a ∧ j = b then scores.outside.score s * cell s j 0 else 0)
          * child.inside.score j :=
        sum_congr rfl fun s _ => inside.1.sum_derivations fun j =>
          if s = a ∧ j = b then scores.outside.score s * cell s j 0 else 0
    _ = scores.outside.score a * cell a b 0 * child.inside.score b := by
        rw [sum_eq_single_of_mem a (mem_range.mpr inParent) fun s _ other => ?_,
          sum_eq_single_of_mem b (mem_range.mpr inLeft) fun j _ other => ?_]
        · simp
        · simp [other]
        · simp [other]
    _ = cell a b 0 * scores.outside.score a * child.inside.score b := by
        rw [mul_comm (scores.outside.score a)]

theorem InsideExact.sum_triple_binary {state a b c : Nat} {scores : NodeScores α}
    {left right : LatentTree α}
    (inside : (binary state scores left right).InsideExact model before)
    (inParent : a < scores.inside.values.length) (inLeft : b < left.substates)
    (inRight : c < right.substates) :
    ∑ d ∈ (binary state scores left right).derivations, (if d.triple? = some (a, b, c) then
        scores.outside.score d.top * (binary state scores left right).weight model before d
        else 0) =
      (binary state scores left right).use model.grammar a b c := by
  let cell := model.grammar.rules.cell (.binary state left.state right.state)
  let chosen (s j k : Nat) : α :=
    if s = a ∧ j = b ∧ k = c then scores.outside.score s * cell s j k else 0
  rw [sum_derivations_binary]
  calc ∑ s ∈ range scores.inside.values.length, ∑ l ∈ left.derivations, ∑ r ∈ right.derivations,
        (if (Derivation.binary s l r).triple? = some (a, b, c) then
          scores.outside.score s * (cell s l.top r.top * (left.weight model before l
            * right.weight model (before + left.wordCount) r)) else 0)
    _ = ∑ s ∈ range scores.inside.values.length, ∑ l ∈ left.derivations,
        ∑ r ∈ right.derivations, chosen s l.top r.top * (left.weight model before l
          * right.weight model (before + left.wordCount) r) := by
        refine sum_congr rfl fun s _ => sum_congr rfl fun l _ => sum_congr rfl fun r _ => ?_
        simp [chosen, Derivation.triple?, ite_mul, mul_assoc]
    _ = ∑ s ∈ range scores.inside.values.length, ∑ j ∈ range left.substates,
        ∑ k ∈ range right.substates,
          chosen s j k * left.inside.score j * right.inside.score k :=
        sum_congr rfl fun s _ => sum_pairs inside.1.sum_derivations inside.2.1.sum_derivations
          (chosen s)
    _ = scores.outside.score a * cell a b c * left.inside.score b * right.inside.score c := by
        rw [sum_eq_single_of_mem a (mem_range.mpr inParent) fun s _ other => ?_,
          sum_eq_single_of_mem b (mem_range.mpr inLeft) fun j _ other => ?_,
          sum_eq_single_of_mem c (mem_range.mpr inRight) fun k _ other => ?_]
        · simp [chosen]
        · simp [chosen, other]
        · simp [chosen, other]
        · simp [chosen, other]
    _ = cell a b c * scores.outside.score a * left.inside.score b * right.inside.score c := by
        rw [mul_comm (scores.outside.score a)]

namespace Exact

/-- The weight of all derivations of whose part below a node something is true. -/
theorem sum_event (exact : tree.Exact model) (there : tree.At index before node)
    (event : Derivation → Prop) [DecidablePred event] :
    ∑ d ∈ tree.derivations with ∃ part ∈ d.part? index, event part, tree.weight model 0 d =
      ∑ d ∈ node.derivations,
        if event d then node.outside.score d.top * node.weight model before d else 0 := by
  have chosen := exact.sum_derivations there fun part =>
    if ∃ d ∈ part, event d then 1 else 0
  simpa [sum_filter] using chosen

theorem sum_top (exact : tree.Exact model) (there : tree.At index before node) (s : Nat) :
    ∑ d ∈ tree.derivations with ∃ part ∈ d.part? index, part.top = s, tree.weight model 0 d =
      node.visit s := by
  by_cases below : s < node.substates
  · rw [visit, ← exact.sum_substate there below]
    congr 1
    apply filter_congr
    intro d _
    rw [Option.map_eq_some_iff]
    rfl
  · rw [exact.sum_event there fun part => part.top = s, visit_eq_zero (Nat.le_of_not_lt below)]
    apply sum_eq_zero
    intro d member
    have inside := top_lt_of_mem member
    exact if_neg (by omega)

/-- The weight of all derivations that use the rule at a node with given substates is the product of
the score of the rule and those around it. -/
theorem sum_triple (exact : tree.Exact model) (there : tree.At index before node)
    (fits : node.Fits substates) (place : Place substates)
    (expands : node.rule? = some place.key) :
    ∑ d ∈ tree.derivations with
        ∃ part ∈ d.part? index, part.triple? = some (place.parent, place.left, place.right),
        tree.weight model 0 d =
      node.use model.grammar place.parent place.left place.right := by
  obtain ⟨key, a, b, c, parents, lefts, rights, dimensions, inParent, inLeft, inRight⟩ := place
  have inside := exact.inside.at_ there
  rw [Nat.zero_add] at inside
  rw [exact.sum_event there fun part => part.triple? = some (a, b, c)]
  cases node with
  | preterminal => cases expands
  | unary state scores child =>
    obtain rfl := Option.some.inj expands
    obtain ⟨top, below⟩ := fits_unary.mp fits
    obtain ⟨parentFound, childFound, rfl⟩ := Production.dimensions_unary_iff.mp dimensions
    obtain rfl := Option.some.inj (top.inside.symm.trans parentFound)
    obtain rfl := Option.some.inj (below.substates_eq.symm.trans childFound)
    obtain rfl : c = 0 := Nat.lt_one_iff.mp inRight
    exact inside.sum_triple_unary inParent inLeft
  | binary state scores left right =>
    obtain rfl := Option.some.inj expands
    obtain ⟨top, leftBelow, rightBelow⟩ := fits_binary.mp fits
    obtain ⟨parentFound, leftFound, rightFound⟩ :=
      Production.dimensions_binary_iff.mp dimensions
    obtain rfl := Option.some.inj (top.inside.symm.trans parentFound)
    obtain rfl := Option.some.inj (leftBelow.substates_eq.symm.trans leftFound)
    obtain rfl := Option.some.inj (rightBelow.substates_eq.symm.trans rightFound)
    exact inside.sum_triple_binary inParent inLeft inRight

end Exact

/-- The uses of the rule at a node with all substates of the children make up the visits. -/
theorem InsideExact.sum_use {position parents lefts rights : Nat}
    (exact : node.InsideExact model position) (fits : node.Fits substates)
    (expands : node.rule? = some key)
    (dimensions : key.dimensions substates = .ok (parents, lefts, rights))
    (below : s < node.substates) :
    ∑ j ∈ range lefts, ∑ k ∈ range rights, node.use model.grammar s j k = node.visit s := by
  cases node with
  | preterminal => cases expands
  | unary state scores child =>
    obtain rfl := Option.some.inj expands
    obtain ⟨-, childFits⟩ := fits_unary.mp fits
    obtain ⟨-, childFound, rfl⟩ := Production.dimensions_unary_iff.mp dimensions
    obtain rfl := Option.some.inj (childFits.substates_eq.symm.trans childFound)
    have score := exact.2 s below
    rw [visit, LatentTree.inside, LatentTree.scores, score, sum_mul]
    apply sum_congr rfl
    intro j _
    rw [sum_range_one, use, LatentTree.outside, LatentTree.scores]
    ring
  | binary state scores left right =>
    obtain rfl := Option.some.inj expands
    obtain ⟨-, leftFits, rightFits⟩ := fits_binary.mp fits
    obtain ⟨-, leftFound, rightFound⟩ := Production.dimensions_binary_iff.mp dimensions
    obtain rfl := Option.some.inj (leftFits.substates_eq.symm.trans leftFound)
    obtain rfl := Option.some.inj (rightFits.substates_eq.symm.trans rightFound)
    have score := exact.2.2 s below
    rw [visit, LatentTree.inside, LatentTree.scores, score, sum_mul]
    apply sum_congr rfl
    intro j _
    rw [sum_mul]
    apply sum_congr rfl
    intro k _
    rw [use, LatentTree.outside, LatentTree.scores]
    ring

/-- Expected numbers in terms of what is known of every node. -/
theorem expected_eq {kind : LatentTree α → Prop} [DecidablePred kind]
    {event : Derivation → Prop} [DecidablePred event] (value : LatentTree α → α)
    (each : ∀ node index before, tree.At index before node → kind node →
      ∑ d ∈ tree.derivations with ∃ part ∈ d.part? index, event part, tree.weight model 0 d =
        value node) :
    tree.expected model kind event =
      (tree.subtrees.map fun node =>
        if kind node then value node / tree.totalWeight model else 0).sum := by
  rw [expected, sum_map_eq_sum_range, sum_filter, tree.length_subtrees_eq_size]
  apply sum_congr rfl
  intro index member
  have below : index < tree.subtrees.length := by
    rw [tree.length_subtrees_eq_size]
    exact mem_range.mp member
  have found := List.getElem?_eq_getElem below
  simp only [found, Option.mem_some_iff, exists_eq_left', Option.elim]
  by_cases holds : kind tree.subtrees[index]
  · rw [if_pos holds, if_pos holds, probability, each _ _ _ (at_of_getElem? found) holds]
  · rw [if_neg holds, if_neg holds]

namespace Exact

theorem expectedUses_eq (exact : tree.Exact model) (fits : tree.Fits substates)
    (place : Place substates) :
    tree.expectedUses model place.key place.parent place.left place.right =
      (tree.subtrees.map fun node => if node.rule? = some place.key then
        node.use model.grammar place.parent place.left place.right / tree.totalWeight model
        else 0).sum := by
  apply expected_eq fun node => node.use model.grammar place.parent place.left place.right
  intro node index before there expands
  have nodeFits := fits.of_mem (List.mem_of_getElem? there.found)
  exact exact.sum_triple there nodeFits place expands

theorem expected_top_eq (exact : tree.Exact model) {kind : LatentTree α → Prop}
    [DecidablePred kind] (s : Nat) :
    tree.expected model kind (·.top = s) =
      (tree.subtrees.map fun node =>
        if kind node then node.visit s / tree.totalWeight model else 0).sum := by
  apply expected_eq fun node => node.visit s
  intro node index before there _
  exact exact.sum_top there s

/-- Over all substates of the children, the uses of a rule are the visits of the nodes that it
expands. -/
theorem sum_expectedUses (exact : tree.Exact model) (fits : tree.Fits substates)
    {parents lefts rights : Nat}
    (dimensions : key.dimensions substates = .ok (parents, lefts, rights)) (below : s < parents) :
    ∑ j ∈ range lefts, ∑ k ∈ range rights, tree.expectedUses model key s j k =
      (tree.subtrees.map fun node =>
        if node.rule? = some key then node.visit s / tree.totalWeight model else 0).sum := by
  have each (j : Nat) (inLeft : j ∈ range lefts) (k : Nat) (inRight : k ∈ range rights) :
      tree.expectedUses model key s j k = (tree.subtrees.map fun node =>
        if node.rule? = some key then node.use model.grammar s j k / tree.totalWeight model
        else 0).sum :=
    exact.expectedUses_eq fits ⟨key, s, j, k, parents, lefts, rights, dimensions, below,
      mem_range.mp inLeft, mem_range.mp inRight⟩
  rw [sum_congr rfl fun j inLeft => sum_congr rfl (each j inLeft)]
  simp only [sum_list_comm]
  congr 1
  apply List.map_congr_left
  intro node member
  by_cases expands : node.rule? = some key
  · obtain ⟨index, found⟩ := List.getElem?_of_mem member
    have nodeFits := fits.of_mem member
    have inNode : s < node.substates := by
      have parent := Production.parent_of_dimensions dimensions
      rw [rule?_parent expands, nodeFits.substates_eq] at parent
      rwa [Option.some.inj parent]
    simp only [if_pos expands, ← sum_div]
    rw [(exact.inside.at_ (at_of_getElem? found)).sum_use nodeFits expands dimensions inNode]
  · simp [expands]

/-- No visit is lost: every node of a category is expanded by a rule of the grammar, or is a
preterminal, or else is not visited. -/
theorem conserved (exact : tree.Exact model) (fits : tree.Fits substates)
    {rules : Finset Production} (complete : ∀ key block, model.grammar.rules.find? key = some block →
      key ∈ rules) {state size : Nat} (known : substates[state]? = some size) (below : s < size) :
    ∑ key ∈ rules with key.parent = state,
        (tree.subtrees.map fun node =>
          if node.rule? = some key then node.visit s / tree.totalWeight model else 0).sum
      + tree.expectedTags model state s =
      tree.expectedVisits model state s := by
  rw [expectedVisits, expectedTags, exact.expected_top_eq, exact.expected_top_eq, sum_list_comm,
    ← List.sum_map_add]
  congr 1
  apply List.map_congr_left
  intro node member
  cases expands : node.rule? with
  | none =>
    have leaf : node.isPreterminal := by
      cases node with
      | preterminal => rfl
      | unary => cases expands
      | binary => cases expands
    simp [leaf]
  | some key =>
    have phrasal : ¬node.isPreterminal := by
      cases node with
      | preterminal => cases expands
      | unary => exact Bool.false_ne_true
      | binary => exact Bool.false_ne_true
    simp only [Option.some.injEq, phrasal, false_and, if_false, add_zero, Bool.false_eq_true]
    rw [sum_ite_eq]
    simp only [mem_filter, rule?_parent expands]
    by_cases here : node.state = state
    · by_cases used : key ∈ rules
      · rw [if_pos ⟨used, here⟩, if_pos here]
      · have absent : model.grammar.rules.find? key = none := by
          by_contra present
          obtain ⟨block, found⟩ := Option.ne_none_iff_exists'.mp present
          exact used (complete key block found)
        obtain ⟨index, found⟩ := List.getElem?_of_mem member
        have nodeFits := fits.of_mem member
        obtain ⟨parents, lefts, rights, dimensions⟩ := nodeFits.dimensions expands
        have inNode : s < node.substates := by
          have same := nodeFits.substates_eq
          rw [here, known] at same
          rwa [← Option.some.inj same]
        have visits := (exact.inside.at_ (at_of_getElem? found)).sum_use nodeFits expands
          dimensions inNode
        simp only [RuleCounts.use_of_absent expands absent, sum_const_zero] at visits
        rw [if_neg fun both => used both.1, if_pos here, ← visits, zero_div]
    · rw [if_neg fun both => here both.2, if_neg here]

/-- Every node of a tree is visited once. -/
theorem sum_expectedVisits (exact : tree.Exact model) (fits : tree.Fits substates)
    (positive : 0 < tree.totalWeight model) :
    ∑ state ∈ range substates.length, ∑ s ∈ range (substates[state]?.getD 0),
      tree.expectedVisits model state s = tree.size := by
  simp only [expectedVisits, exact.expected_top_eq]
  simp only [sum_list_comm]
  have once : ∀ node ∈ tree.subtrees,
      (∑ state ∈ range substates.length, ∑ s ∈ range (substates[state]?.getD 0),
        if node.state = state then node.visit s / tree.totalWeight model else 0) = 1 := by
    intro node member
    obtain ⟨index, found⟩ := List.getElem?_of_mem member
    have known := (fits.of_mem member).substates_eq
    have inside := (List.getElem?_eq_some_iff.mp known).1
    rw [sum_eq_single_of_mem node.state (mem_range.mpr inside)]
    · simp only [known, Option.getD_some, if_true, ← sum_div]
      rw [div_eq_one_iff_eq positive.ne']
      exact exact.sum_scores (at_of_getElem? found)
    · intro state _ other
      simp [Ne.symm other]
  rw [List.map_congr_left once, List.map_const', List.sum_replicate, nsmul_one,
    tree.length_subtrees_eq_size]

end Exact

end LatentTree

end LatentGrammar
