import LatentGrammar.Proofs.Counting.Totals

namespace LatentGrammar

open Finset

variable {α : Type} [ExactScalar α]

/-- A rule with the substates at its top and below it. -/
abbrev RuleUse := Production × Nat × Nat × Nat

/-- The category and the substate whose row a use belongs to. -/
def RuleUse.row (use : RuleUse) : Nat × Nat := (use.1.parent, use.2.1)

/-- What is found by any substates, also by ones that the categories do not have, is in the cell of
substates that they have, or beyond the end. -/
theorem RuleBlock.Sized.cell_cases {block : RuleBlock α} {parents lefts rights : Nat}
    (sized : block.Sized parents lefts rights) (i j k : Nat) :
    block.cell i j k = 0 ∨ ∃ a < parents, ∃ b < lefts, ∃ c < rights,
      block.cell i j k = block.cell a b c := by
  by_cases inside : block.offset i j k < block.cells.size
  · right
    obtain ⟨n, place⟩ : ∃ n, block.offset i j k = n := ⟨_, rfl⟩
    rw [place, sized.size_eq] at inside
    have someRights : 0 < rights := Nat.pos_of_ne_zero (by rintro rfl; simp at inside)
    have pairs : n / rights < parents * lefts :=
      Nat.div_lt_of_lt_mul (Nat.mul_comm _ rights ▸ inside)
    have someLefts : 0 < lefts := Nat.pos_of_ne_zero (by rintro rfl; simp at pairs)
    refine ⟨n / rights / lefts, Nat.div_lt_of_lt_mul (Nat.mul_comm _ lefts ▸ pairs),
      n / rights % lefts, Nat.mod_lt _ someLefts, n % rights, Nat.mod_lt _ someRights, ?_⟩
    have again : block.offset (n / rights / lefts) (n / rights % lefts) (n % rights) = n := by
      rw [offset, sized.lefts_eq, sized.rights_eq, Nat.div_add_mod', Nat.div_add_mod']
    rw [cell, cell, place, again]
  · left
    simp [cell, inside]

namespace RuleTable

variable {table : RuleTable α} {substates : List Nat}

/-- The score of a use. -/
def score (table : RuleTable α) (use : RuleUse) : α := table.cell use.1 use.2.1 use.2.2.1 use.2.2.2

/-- All uses of a rule with substates that its block has cells for. -/
def usesOf (table : RuleTable α) (key : Production) : Finset RuleUse :=
  (table.find? key).elim ∅ fun block =>
    {key} ×ˢ range block.parents ×ˢ range block.lefts ×ˢ range block.rights

/-- All uses of the rules of a table. -/
def uses (table : RuleTable α) : Finset RuleUse := table.keys.biUnion table.usesOf

omit [ExactScalar α] in
theorem mem_usesOf {key : Production} {use : RuleUse} (member : use ∈ table.usesOf key) :
    use.1 = key := by
  unfold usesOf at member
  cases found : table.find? key with
  | none => simp [found] at member
  | some block =>
    simp only [found, Option.elim, mem_product, mem_singleton] at member
    exact member.1

omit [ExactScalar α] in
theorem Fits.mem_uses (fits : table.Fits substates) {key : Production} {i j k : Nat} :
    (key, i, j, k) ∈ table.uses ↔ (∃ block, table.find? key = some block) ∧
      ∃ parents lefts rights, key.dimensions substates = .ok (parents, lefts, rights) ∧
        i < parents ∧ j < lefts ∧ k < rights := by
  rw [uses, mem_biUnion]
  constructor
  · rintro ⟨other, -, member⟩
    obtain rfl : key = other := mem_usesOf member
    unfold usesOf at member
    cases found : table.find? key with
    | none => simp [found] at member
    | some block =>
      obtain ⟨parents, lefts, rights, dimensions, sized⟩ := fits.find? found
      simp only [found, Option.elim, mem_product, mem_range, sized.parents_eq, sized.lefts_eq,
        sized.rights_eq] at member
      exact ⟨⟨block, rfl⟩, parents, lefts, rights, dimensions, member.2⟩
  · rintro ⟨⟨block, found⟩, parents, lefts, rights, dimensions, inside⟩
    have sized := (fits.find? found).sized dimensions
    refine ⟨key, mem_keys.mpr ⟨block, found⟩, ?_⟩
    simp [usesOf, found, sized.parents_eq, sized.lefts_eq, sized.rights_eq, inside]

theorem Fits.score_nonneg (fits : table.Fits substates)
    (nonneg : ∀ use ∈ table.uses, 0 ≤ table.score use) (use : RuleUse) : 0 ≤ table.score use := by
  obtain ⟨key, i, j, k⟩ := use
  unfold score cell
  cases found : table.find? key with
  | none => exact le_rfl
  | some block =>
    obtain ⟨parents, lefts, rights, dimensions, sized⟩ := fits.find? found
    rcases sized.cell_cases i j k with zero | ⟨a, parent, b, left, c, right, same⟩
    · exact zero.ge
    · have here := nonneg (key, a, b, c) (fits.mem_uses.mpr
        ⟨⟨block, found⟩, parents, lefts, rights, dimensions, parent, left, right⟩)
      simpa [score, cell, found, same] using here

/-- The uses in the row of a substate are summed up rule by rule. -/
theorem Fits.sum_row (fits : table.Fits substates) {state size s : Nat}
    (known : substates[state]? = some size) (below : s < size) (f : RuleUse → α) :
    ∑ use ∈ table.uses with use.row = (state, s), f use =
      ∑ key ∈ table.keys with key.parent = state,
        table.sumRow key fun j k => f (key, s, j, k) := by
  have disjoint : (table.keys : Set Production).PairwiseDisjoint table.usesOf := by
    intro first _ second _ different
    refine disjoint_left.mpr fun use here there => different ?_
    rw [← mem_usesOf here, ← mem_usesOf there]
  rw [sum_filter, uses, sum_biUnion disjoint, sum_filter]
  apply sum_congr rfl
  intro key member
  obtain ⟨block, found⟩ := mem_keys.mp member
  obtain ⟨parents, lefts, rights, dimensions, sized⟩ := fits.find? found
  simp only [usesOf, sumRow, found, Option.elim, sum_product, sum_singleton, RuleUse.row,
    Prod.mk.injEq]
  by_cases here : key.parent = state
  · subst here
    have parent := Production.parent_of_dimensions dimensions
    obtain rfl := Option.some.inj (known.symm.trans parent)
    simp only [true_and, if_true, sized.parents_eq]
    rw [sum_eq_single_of_mem s (mem_range.mpr below)]
    · simp
    · intro other _ different
      simp [different]
  · simp [here]

theorem Fits.parentSum_eq (fits : table.Fits substates) {state size s : Nat}
    (known : substates[state]? = some size) (below : s < size) :
    ∑ use ∈ table.uses with use.row = (state, s), table.score use = table.parentSum state s :=
  fits.sum_row known below table.score

end RuleTable

namespace LatentTree

variable {model : Model α} {substates : List Nat} {tree left right child : LatentTree α}
  {d l r : Derivation} {state s : Nat} {scores : NodeScores α}

/-- The use of a rule at a node, given what a derivation does there. -/
def useAt (node : LatentTree α) (part : Derivation) : Option RuleUse := do
  return (← node.rule?, ← part.triple?)

/-- The uses of rules in a derivation, node by node. -/
def uses (tree : LatentTree α) (d : Derivation) : List RuleUse :=
  (tree.subtrees.zip d.parts).filterMap fun (node, part) => node.useAt part

omit [ExactScalar α] in
theorem uses_unary : (unary state scores child).uses (.unary s d) =
    (.unary state child.state, s, d.top, 0) :: child.uses d := rfl

omit [ExactScalar α] in
theorem uses_binary (member : l ∈ left.derivations) :
    (binary state scores left right).uses (.binary s l r) =
      (.binary state left.state right.state, s, l.top, r.top) :: (left.uses l ++ right.uses r) := by
  have length := (length_parts member).symm
  simp only [uses, subtrees, Derivation.parts, List.zip_cons_cons, List.zip_append length,
    List.filterMap_cons, List.filterMap_append]
  rfl

/-- The product of the scores of the words under the substates of a derivation. -/
def emitted (lexicon : Lexicon α) : Nat → LatentTree α → Derivation → α
  | position, preterminal state word _, .preterminal s => lexicon.emission word state position s
  | position, unary _ _ child, .unary _ d => child.emitted lexicon position d
  | position, binary _ _ left right, .binary _ l r =>
    left.emitted lexicon position l * right.emitted lexicon (position + left.wordCount) r
  | _, _, _ => 0

/-- The weight of a derivation is a product over the rules that it uses and the words. -/
theorem weight_eq_prod (member : d ∈ tree.derivations) (position : Nat) :
    tree.weight model position d = tree.emitted model.lexicon position d
      * ((tree.uses d).map model.grammar.rules.score).prod := by
  induction tree generalizing d position with
  | preterminal state word scores =>
    obtain ⟨s, rfl, -⟩ := preterminal_cases member
    exact (mul_one _).symm
  | unary state scores child ih =>
    obtain ⟨s, inner, rfl, -, below⟩ := unary_cases member
    simp only [weight, emitted, uses_unary, List.map_cons, List.prod_cons, RuleTable.score, ih below]
    ring
  | binary state scores left right leftIh rightIh =>
    obtain ⟨s, l, r, rfl, -, leftBelow, rightBelow⟩ := binary_cases member
    simp only [weight, emitted, uses_binary leftBelow, List.map_cons, List.prod_cons,
      List.map_append, List.prod_append, RuleTable.score, leftIh leftBelow, rightIh rightBelow]
    ring

omit [ExactScalar α] in
/-- A derivation uses rules with substates that their categories have. -/
theorem Fits.dimensions_of_mem_uses (fits : tree.Fits substates) (member : d ∈ tree.derivations)
    {use : RuleUse} (used : use ∈ tree.uses d) :
    ∃ parents lefts rights, use.1.dimensions substates = .ok (parents, lefts, rights) ∧
      use.2.1 < parents ∧ use.2.2.1 < lefts ∧ use.2.2.2 < rights := by
  induction tree generalizing d with
  | preterminal state word scores =>
    obtain ⟨s, rfl, -⟩ := preterminal_cases member
    exact absurd used List.not_mem_nil
  | unary state scores child ih =>
    obtain ⟨s, inner, rfl, top, below⟩ := unary_cases member
    rcases List.mem_cons.mp used with rfl | later
    · exact ⟨_, _, _, fits.dimensions_unary, top, top_lt_of_mem below, Nat.one_pos⟩
    · exact ih (fits_unary.mp fits).2 below later
  | binary state scores left right leftIh rightIh =>
    obtain ⟨s, l, r, rfl, top, leftBelow, rightBelow⟩ := binary_cases member
    obtain ⟨-, leftFits, rightFits⟩ := fits_binary.mp fits
    rw [uses_binary leftBelow] at used
    rcases List.mem_cons.mp used with rfl | later
    · exact ⟨_, _, _, fits.dimensions_binary, top, top_lt_of_mem leftBelow,
        top_lt_of_mem rightBelow⟩
    · rcases List.mem_append.mp later with inLeft | inRight
      · exact leftIh leftFits leftBelow inLeft
      · exact rightIh rightFits rightBelow inRight

/-- How often a derivation uses a rule is the number of nodes at which it does. -/
theorem count_uses (member : d ∈ tree.derivations) (key : Production) (triple : Nat × Nat × Nat) :
    ((tree.uses d).count (key, triple) : α) = ∑ index ∈ range tree.size,
      if (∃ node ∈ tree.subtrees[index]?, node.rule? = some key) ∧
          ∃ part ∈ d.part? index, part.triple? = some triple then 1 else 0 := by
  have counted (pairs : List (LatentTree α × Derivation)) :
      ((pairs.filterMap fun (node, part) => node.useAt part).count (key, triple) : α) =
        (pairs.map fun (node, part) =>
          if node.rule? = some key ∧ part.triple? = some triple then (1 : α) else 0).sum := by
    induction pairs with
    | nil => simp
    | cons pair rest ih =>
      obtain ⟨node, part⟩ := pair
      rw [List.map_cons, List.sum_cons, ← ih, List.filterMap_cons]
      cases ruled : node.rule? with
      | none => simp [useAt, ruled]
      | some other =>
        cases tripled : part.triple? with
        | none => simp [useAt, ruled, tripled]
        | some found =>
          simp only [useAt, ruled, tripled, Option.bind_eq_bind, Option.bind_some, Option.pure_def,
            List.count_cons, beq_iff_eq, Prod.mk.injEq, Option.some.injEq]
          split <;> simp [add_comm]
  have length : (tree.subtrees.zip d.parts).length = tree.size := by
    rw [List.length_zip, length_parts member, min_self, length_subtrees_eq_size]
  rw [uses, counted, sum_map_eq_sum_range, length]
  apply sum_congr rfl
  intro index inside
  have inTree : index < tree.subtrees.length := by
    rw [length_subtrees_eq_size]
    exact mem_range.mp inside
  have inParts : index < d.parts.length := by rwa [length_parts member]
  have both :
      (tree.subtrees.zip d.parts)[index]? = some (tree.subtrees[index], d.parts[index]) := by
    rw [List.getElem?_zip_eq_some]
    exact ⟨List.getElem?_eq_getElem inTree, List.getElem?_eq_getElem inParts⟩
  rw [both]
  simp [Derivation.part?, inTree, inParts]

/-- The expected number of uses of a rule is the mean of how often the derivations use it. -/
theorem expectedUses_eq_sum (key : Production) (i j k : Nat) :
    tree.expectedUses model key i j k = (∑ d ∈ tree.derivations,
      tree.weight model 0 d * (tree.uses d).count (key, i, j, k)) / tree.totalWeight model := by
  have swapped : ∀ index ∈ range tree.size,
      (if ∃ node ∈ tree.subtrees[index]?, node.rule? = some key then
        tree.probability model fun d => ∃ part ∈ d.part? index, part.triple? = some (i, j, k)
        else 0) =
      ∑ d ∈ tree.derivations, tree.weight model 0 d
        * (if (∃ node ∈ tree.subtrees[index]?, node.rule? = some key) ∧
          ∃ part ∈ d.part? index, part.triple? = some (i, j, k) then 1 else 0)
        / tree.totalWeight model := by
    intro index _
    by_cases expands : ∃ node ∈ tree.subtrees[index]?, node.rule? = some key
    · simp only [expands, true_and, if_true, probability, sum_div, sum_filter, mul_ite, mul_one,
        mul_zero, ite_div, zero_div]
    · simp only [expands, false_and, if_false, mul_zero, zero_div, sum_const_zero]
  rw [expectedUses, expected, sum_filter, sum_congr rfl swapped, sum_comm, sum_div]
  apply sum_congr rfl
  intro d member
  rw [count_uses member, mul_sum, sum_div]

end LatentTree

end LatentGrammar
