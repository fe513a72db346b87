import LatentGrammar.Proofs.Consistency.Passes
import LatentGrammar.Proofs.Counting.Expected

namespace LatentGrammar

open Finset

variable {α : Type} [ExactScalar α] {model : Model α} {substates : List Nat}

namespace RuleTable

variable {table : RuleTable α} {key : Production} {block : RuleBlock α}

/-- The rules that have a block in the table. -/
def keys (table : RuleTable α) : Finset Production := (table.entries.map Prod.fst).toFinset

/-- A sum over the substates of the children of a rule in the table. -/
def sumRow (table : RuleTable α) (key : Production) (f : Nat → Nat → α) : α :=
  (table.find? key).elim 0 fun block => ∑ j ∈ range block.lefts, ∑ k ∈ range block.rights, f j k

/-- The sum of what the rules of a category have in their rows for one of its substates. -/
def parentSum (table : RuleTable α) (state s : Nat) : α :=
  ∑ key ∈ table.keys with key.parent = state, table.sumRow key (table.cell key s)

omit [ExactScalar α] in
theorem mem_keys : key ∈ table.keys ↔ ∃ block, table.find? key = some block := by
  rw [keys, List.mem_toFinset, ← Option.isSome_iff_exists, find?, List.lookup_isSome_iff]
  simp

theorem Fits.sumRow_eq (fits : table.Fits substates) (found : table.find? key = some block)
    {parents lefts rights : Nat}
    (dimensions : key.dimensions substates = .ok (parents, lefts, rights)) (f : Nat → Nat → α) :
    table.sumRow key f = ∑ j ∈ range lefts, ∑ k ∈ range rights, f j k := by
  have sized := (fits.find? found).sized dimensions
  rw [sumRow, found, Option.elim, sized.lefts_eq, sized.rights_eq]

theorem sumRow_list {ι : Type} (items : List ι) (f : ι → Nat → Nat → α) :
    table.sumRow key (fun j k => (items.map fun item => f item j k).sum) =
      (items.map fun item => table.sumRow key (f item)).sum := by
  unfold sumRow
  cases table.find? key with
  | none => simp
  | some block => simp only [Option.elim, sum_list_comm]

end RuleTable

namespace LatentTree

variable {tree scored : LatentTree α}

/-- What scoring makes of a tree with one substate at the top. -/
structure ScoredAs (model : Model α) (tree scored : LatentTree α) : Prop where
  alike : scored.Alike tree
  exact : scored.Exact model
  fits : scored.Fits model.substates
  single : scored.substates = 1

theorem computeBoth_scores (rules : model.grammar.rules.Fits model.substates)
    (lexicon : model.lexicon.Consistent) (same : model.lexicon.substates = model.substates)
    (fits : tree.Fits model.substates) (single : tree.substates = 1) :
    ∃ scored, tree.computeBoth model = .ok scored ∧ tree.ScoredAs model scored := by
  have lexical : tree.Fits model.lexicon.substates := same ▸ fits
  obtain ⟨scored, success, alike⟩ := delivers_never_iff.mp <|
    computeBoth_delivers rules lexicon.answers fits lexical
  refine ⟨scored, success, alike, ?_, alike.fits fits, alike.substates_eq.trans single⟩
  exact computeBoth_exact rules fits lexical success

namespace ScoredAs

variable (scores : tree.ScoredAs model scored)
include scores

theorem mass : scored.mass = .ok (entry scored.inside.values 0) := mass_eq scores.single

theorem positive_iff : 0 < entry scored.inside.values 0 ↔ 0 < tree.totalWeight model := by
  rw [scores.exact.mass_pos_iff scores.single, scores.alike.totalWeight_eq]

theorem mass_mul :
    entry scored.inside.values 0 * Scalar.scaleFactor scored.inside.scale =
      scored.totalWeight model :=
  scores.exact.inside.mass_mul scores.single

theorem uses (place : Place model.substates) :
    (scored.subtrees.map fun node => if node.rule? = some place.key then
      node.use model.grammar place.parent place.left place.right
        / (entry scored.inside.values 0 * Scalar.scaleFactor scored.inside.scale) else 0).sum =
      tree.expectedUses model place.key place.parent place.left place.right := by
  rw [scores.mass_mul, ← scores.alike.expectedUses_eq, scores.exact.expectedUses_eq scores.fits]

theorem tags (state s : Nat) :
    (scored.subtrees.map fun node => if node.isPreterminal ∧ node.state = state then
      node.visit s / (entry scored.inside.values 0 * Scalar.scaleFactor scored.inside.scale)
      else 0).sum = tree.expectedTags model state s := by
  rw [scores.mass_mul, ← scores.alike.expectedTags_eq, expectedTags, scores.exact.expected_top_eq]

theorem visits (state s : Nat) :
    (scored.subtrees.map fun node => if node.state = state then
      node.visit s / (entry scored.inside.values 0 * Scalar.scaleFactor scored.inside.scale)
      else 0).sum = tree.expectedVisits model state s := by
  rw [scores.mass_mul, ← scores.alike.expectedVisits_eq, expectedVisits,
    scores.exact.expected_top_eq]

/-- The uses of the rules of a category and the words under it make up its visits. -/
theorem conserved {table : RuleTable α} (fits : table.Fits model.substates)
    (complete : ∀ key block, model.grammar.rules.find? key = some block → key ∈ table.keys)
    {state size s : Nat} (known : model.substates[state]? = some size) (below : s < size) :
    ∑ key ∈ table.keys with key.parent = state, table.sumRow key (tree.expectedUses model key s)
      + tree.expectedTags model state s = tree.expectedVisits model state s := by
  rw [← scores.alike.expectedTags_eq, ← scores.alike.expectedVisits_eq,
    ← scores.exact.conserved scores.fits complete known below]
  congr 1
  apply sum_congr rfl
  intro key member
  obtain ⟨listed, rfl⟩ := mem_filter.mp member
  obtain ⟨block, found⟩ := RuleTable.mem_keys.mp listed
  obtain ⟨parents, lefts, rights, dimensions, -⟩ := fits.find? found
  have parent := Production.parent_of_dimensions dimensions
  rw [known] at parent
  obtain rfl := Option.some.inj parent
  rw [fits.sumRow_eq found dimensions, ← scores.exact.sum_expectedUses scores.fits dimensions below]
  simp only [scores.alike.expectedUses_eq]

theorem sum_visits (positive : 0 < tree.totalWeight model) :
    ∑ state ∈ range model.substates.length, ∑ s ∈ range (model.substates[state]?.getD 0),
      tree.expectedVisits model state s = tree.size := by
  rw [← scores.alike.size_eq]
  rw [← scores.alike.totalWeight_eq] at positive
  rw [← scores.exact.sum_expectedVisits scores.fits positive]
  simp only [scores.alike.expectedVisits_eq]

end ScoredAs

/-- What a tree contributes to the places of rules, the substates of tags and the number of scored
trees: nothing, if the model gives it no weight. -/
def contribution (model : Model α) (tree : LatentTree α) :
    (Place model.substates → α) × (Nat → Nat → α) × Nat :=
  if 0 < tree.totalWeight model then
    (fun place => tree.expectedUses model place.key place.parent place.left place.right,
      tree.expectedTags model, 1)
  else 0

theorem sum_contribution (trees : List (LatentTree α)) :
    (trees.map (contribution model)).sum =
      (fun place => ((trees.filter fun tree => 0 < tree.totalWeight model).map fun tree =>
          tree.expectedUses model place.key place.parent place.left place.right).sum,
        fun state s => ((trees.filter fun tree => 0 < tree.totalWeight model).map fun tree =>
          tree.expectedTags model state s).sum,
        ((trees.filter fun tree => 0 < tree.totalWeight model).map fun _ => 1).sum) := by
  simp only [sum_map_filter]
  induction trees with
  | nil => rfl
  | cons tree rest ih =>
    rw [List.map_cons, List.sum_cons, ih, contribution]
    by_cases positive : 0 < tree.totalWeight model
    · simp only [if_pos positive, List.map_cons, List.sum_cons]
      rfl
    · simp only [if_neg positive, List.map_cons, List.sum_cons, zero_add]

theorem hasLikelihood_iff {mass : α} : hasLikelihood mass ↔ 0 < mass := by
  simp [hasLikelihood, Scalar.isFinite]

end LatentTree

/-- The trees of a forest that the model gives weight. -/
def Forest.scored (model : Model α) (forest : Forest α) : List (LatentTree α) :=
  forest.trees.filter fun tree => 0 < tree.totalWeight model

namespace Training

variable {tree : LatentTree α} {forest : Forest α}

namespace Expectation

/-- There are counts for all rules and all tags of the model. -/
structure Whole (model : Model α) (expectation : Expectation α) : Prop where
  rules : ∃ counts, expectation.rules = some counts ∧
    counts.Covers model.grammar model.substates
  emissions : expectation.emissions.InFrame model.lexicon.toLexiconFrame

/-- The counts at the places of rules and the substates of tags, and the number of scored trees. -/
def gathered (substates : List Nat) (expectation : Expectation α) :
    (Place substates → α) × (Nat → Nat → α) × Nat :=
  (fun place => expectation.rules.elim 0 (·.rules.at place),
    tally expectation.emissions.tables.tagCounts, expectation.outcome.scored)

end Expectation

theorem expectTree_grows (rules : model.grammar.rules.Fits model.substates)
    (lexicon : model.lexicon.Consistent) (same : model.lexicon.substates = model.substates)
    (fits : tree.Fits model.substates) (single : tree.substates = 1) (rare : α) (size index : Nat)
    {expectation : Expectation α} (whole : expectation.Whole model) :
    Delivers Never
      (fun next => Grows (Expectation.Whole model) (Expectation.gathered model.substates)
        expectation (tree.contribution model) next.2)
      (expectTree model rare size index tree expectation) := by
  obtain ⟨scored, success, scores⟩ :=
    LatentTree.computeBoth_scores rules lexicon same fits single
  obtain ⟨counts, known, covers⟩ := whole.rules
  unfold expectTree LatentTree.contribution
  simp only [success, scores.mass, ok_bind]
  by_cases positive : 0 < entry scored.inside.values 0
  · have lexical : scored.Fits model.lexicon.substates := same ▸ scores.fits
    have tagged (state s : Nat) : Delivers Never _
        (expectation.emissions.countScored ⟨inLaterHalf α index size, rare⟩ scored) :=
      EmissionCounts.countScored_grows whole.emissions lexical scores.mass positive state s
    have used : Delivers Never _ (counts.countScored model.grammar scored) :=
      RuleCounts.countScored_grows rules covers scores.fits scores.mass positive
    obtain ⟨emissions, addedTags, tags⟩ := delivers_never_iff.mp (tagged 0 0)
    obtain ⟨next, addedRules, uses⟩ := delivers_never_iff.mp used
    rw [if_pos (LatentTree.hasLikelihood_iff.mpr positive), if_pos (scores.positive_iff.mp positive),
      addedTags, known]
    simp only [ok_bind, Option.mapM_some, addedRules, LatentTree.logLikelihood, scores.mass]
    refine ⟨⟨⟨next, rfl, uses.kept⟩, tags.kept⟩, Prod.ext ?_ (Prod.ext ?_ rfl)⟩
    · funext place
      have grown := congrFun uses.grown place
      simp only [Pi.add_apply, scores.uses place] at grown
      show next.rules.at place = expectation.rules.elim 0 (·.rules.at place) + _
      rw [known]
      exact grown
    · funext state s
      have grown := ((tagged state s).of_ok addedTags).grown
      rw [scores.tags state s] at grown
      exact grown
  · rw [if_neg (mt LatentTree.hasLikelihood_iff.mp positive),
      if_neg (mt scores.positive_iff.mpr positive)]
    exact ⟨⟨whole.rules, whole.emissions⟩, (add_zero _).symm⟩

theorem countsAfter_zero (rules : model.grammar.rules.Fits model.substates)
    (same : model.lexicon.substates = model.substates) {start : Option (RuleCounts α)}
    {emissions : EmissionCounts α} (success : countsAfter model true = .ok (start, emissions)) :
    Expectation.Whole model ⟨.start, start, emissions⟩ ∧
      Expectation.gathered model.substates ⟨.start, start, emissions⟩ = 0 ∧
      model.substates.mapM (fill · (0 : α)) = .ok emissions.tables.tagCounts := by
  obtain ⟨first, begun, success⟩ := bind_eq_ok_iff.mp success
  obtain ⟨second, opened, done⟩ := bind_eq_ok_iff.mp success
  cases done
  have inFrame := (EmissionCounts.after_delivers model.lexicon any_overflow).of_ok opened
  obtain ⟨tables, built, done⟩ := bind_eq_ok_iff.mp opened
  obtain rfl := Except.ok.inj done
  obtain ⟨tags, zeros, done⟩ := bind_eq_ok_iff.mp built
  obtain rfl := Except.ok.inj done
  cases known : RuleCounts.after model.grammar with
  | error fault =>
    rw [known] at begun
    cases begun
  | ok counts =>
    rw [known] at begun
    obtain rfl : some counts = start := Except.ok.inj begun
    obtain ⟨covers, empty⟩ := RuleCounts.after_covers rules known
    refine ⟨⟨⟨counts, rfl, covers⟩, inFrame⟩, Prod.ext ?_ (Prod.ext ?_ rfl), same ▸ zeros⟩
    · funext place
      exact empty place.key place.parent place.left place.right
    · funext state s
      exact tally_zeros zeros state s

end Training

theorem Model.weighTree_grows (rules : model.grammar.rules.Fits model.substates)
    (lexicon : model.lexicon.Consistent) (same : model.lexicon.substates = model.substates)
    {tree : LatentTree α} (fits : tree.Fits model.substates) (single : tree.substates = 1)
    {weights : List (List α)} (weighted : List.Forall₂ HasSize weights model.substates)
    (state s : Nat) :
    Delivers Never
      (fun next => Grows (List.Forall₂ HasSize · model.substates) (tally · state s) weights
        (if 0 < tree.totalWeight model then tree.expectedVisits model state s else 0) next.2)
      (model.weighTree tree weights) := by
  obtain ⟨scored, success, scores⟩ :=
    LatentTree.computeBoth_scores rules lexicon same fits single
  unfold weighTree
  simp only [success, scores.mass, ok_bind]
  by_cases positive : 0 < entry scored.inside.values 0
  · rw [if_pos (LatentTree.hasLikelihood_iff.mpr positive), if_pos (scores.positive_iff.mp positive),
      ← scores.visits state s]
    simp only [LatentTree.posteriors, scores.mass, ok_bind, pure_bind]
    apply (addPosteriors_grows weighted scores.fits positive scored.inside.scale state s).bind
    intro next grows
    exact grows
  · rw [if_neg (mt LatentTree.hasLikelihood_iff.mp positive),
      if_neg (mt scores.positive_iff.mpr positive)]
    exact delivers_pure.mpr (.none weighted)

/-- Counts of the rules of a category and of its words as a tag make up the expected visits. -/
theorem RuleCounts.Covers.parentSum_add {counts : RuleCounts α}
    (covers : counts.Covers model.grammar model.substates) {trees : List (LatentTree α)}
    (scores : ∀ tree ∈ trees, ∃ scored, tree.ScoredAs model scored)
    (cells : ∀ place : Place model.substates, counts.rules.at place = (trees.map fun tree =>
      tree.expectedUses model place.key place.parent place.left place.right).sum)
    {state size s : Nat} (found : model.substates[state]? = some size) (below : s < size) :
    counts.rules.parentSum state s + (trees.map fun tree => tree.expectedTags model state s).sum =
      (trees.map fun tree => tree.expectedVisits model state s).sum := by
  have complete (key : Production) (block : RuleBlock α)
      (known : model.grammar.rules.find? key = some block) : key ∈ counts.rules.keys :=
    RuleTable.mem_keys.mpr (covers.block_of known)
  have row : ∀ key ∈ counts.rules.keys.filter (·.parent = state),
      counts.rules.sumRow key (counts.rules.cell key s) =
        (trees.map fun tree => counts.rules.sumRow key (tree.expectedUses model key s)).sum := by
    intro key member
    obtain ⟨listed, rfl⟩ := mem_filter.mp member
    obtain ⟨block, known⟩ := RuleTable.mem_keys.mp listed
    obtain ⟨parents, lefts, rights, dimensions, -⟩ := covers.fits.find? known
    have parent := Production.parent_of_dimensions dimensions
    rw [found] at parent
    obtain rfl := Option.some.inj parent
    rw [← RuleTable.sumRow_list, covers.fits.sumRow_eq known dimensions,
      covers.fits.sumRow_eq known dimensions]
    refine sum_congr rfl fun j inLeft => sum_congr rfl fun k inRight => ?_
    exact cells ⟨key, s, j, k, size, lefts, rights, dimensions, below, mem_range.mp inLeft,
      mem_range.mp inRight⟩
  rw [RuleTable.parentSum, sum_congr rfl row, sum_list_comm, ← List.sum_map_add]
  congr 1
  apply List.map_congr_left
  intro tree member
  obtain ⟨scored, scores⟩ := scores tree member
  exact scores.conserved covers.fits complete found below

/-- Over all trees, weights grow by the expected visits of those that have weight. -/
theorem Model.mergeWeights_grows (rules : model.grammar.rules.Fits model.substates)
    (lexicon : model.lexicon.Consistent) (same : model.lexicon.substates = model.substates)
    {forest : Forest α}
    (fits : ∀ tree ∈ forest.trees, tree.Fits model.substates ∧ tree.substates = 1)
    {zeros : List (List α)} (start : model.substates.mapM (fill · 0) = .ok zeros) (state s : Nat) :
    (model.mergeWeights forest).fault = none ∧
      Grows (List.Forall₂ HasSize · model.substates) (tally · state s) zeros
        (forest.trees.map fun tree =>
          if 0 < tree.totalWeight model then tree.expectedVisits model state s else 0).sum
        (model.mergeWeights forest).result := by
  have weighted : List.Forall₂ HasSize zeros model.substates :=
    (delivers_zero_rows model.substates any_overflow).of_ok start
  simp only [mergeWeights, start]
  exact Forest.sweep_grows
    (fun tree => if 0 < tree.totalWeight model then tree.expectedVisits model state s else 0)
    (fun _ tree weights fits weighted =>
      weighTree_grows rules lexicon same fits.1 fits.2 weighted state s) fits weighted 0

/-- Weights for merging are the expected visits to all substates. -/
theorem Model.mergeWeights_tally (rules : model.grammar.rules.Fits model.substates)
    (lexicon : model.lexicon.Consistent) (same : model.lexicon.substates = model.substates)
    {forest : Forest α}
    (fits : ∀ tree ∈ forest.trees, tree.Fits model.substates ∧ tree.substates = 1)
    {zeros : List (List α)} (start : model.substates.mapM (fill · 0) = .ok zeros) :
    (model.mergeWeights forest).fault = none ∧ ∀ state s,
      tally (model.mergeWeights forest).result state s =
        ((forest.scored model).map fun tree => tree.expectedVisits model state s).sum := by
  have swept := mergeWeights_grows rules lexicon same fits start
  refine ⟨(swept 0 0).1, fun state s => ?_⟩
  rw [(swept state s).2.grown, tally_zeros start, zero_add, Forest.scored, sum_map_filter]

namespace Training

variable {forest : Forest α}

/-- Expected counts are the expected uses of all rules and the expected words under all tags. -/
theorem expectTrees_counts (rules : model.grammar.rules.Fits model.substates)
    (lexicon : model.lexicon.Consistent) (same : model.lexicon.substates = model.substates)
    (fits : ∀ tree ∈ forest.trees, tree.Fits model.substates ∧ tree.substates = 1)
    {start : Option (RuleCounts α)} {emissions : EmissionCounts α}
    (whole : Expectation.Whole model ⟨.start, start, emissions⟩)
    (none : Expectation.gathered model.substates ⟨.start, start, emissions⟩ = 0) (rare : α) :
    (expectTrees model rare forest start emissions).fault = .none ∧
      (expectTrees model rare forest start emissions).result.outcome.scored =
        (forest.scored model).length ∧
      ∃ counts, (expectTrees model rare forest start emissions).result.rules = some counts ∧
        counts.Covers model.grammar model.substates ∧
        (∀ place : Place model.substates, counts.rules.at place =
          ((forest.scored model).map fun tree =>
            tree.expectedUses model place.key place.parent place.left place.right).sum) ∧
        ∀ state s, tally
          (expectTrees model rare forest start emissions).result.emissions.tables.tagCounts state s =
            ((forest.scored model).map fun tree => tree.expectedTags model state s).sum := by
  obtain ⟨passed, kept, gathered⟩ := Forest.sweep_grows (LatentTree.contribution model)
    (fun index tree expectation fits whole =>
      expectTree_grows rules lexicon same fits.1 fits.2 rare forest.size index whole) fits whole 0
  rw [none, zero_add, LatentTree.sum_contribution] at gathered
  obtain ⟨uses, others⟩ := Prod.ext_iff.mp gathered
  obtain ⟨tags, scored⟩ := Prod.ext_iff.mp others
  obtain ⟨counts, known, covers⟩ := kept.rules
  refine ⟨passed, ?_, counts, known, covers, fun place => ?_, fun state s => ?_⟩
  · rw [List.map_const', List.sum_replicate, nsmul_one] at scored
    exact scored
  · have here := congrFun uses place
    simp only [Expectation.gathered, known, Option.elim] at here
    exact here
  · exact congrFun (congrFun tags state) s

/-- Counting is exact, and loses nothing. The count of every cell of a rule is the sum of the
posterior probabilities that its substates are used, over all nodes of the scored trees that the
rule expands. The counts of the rules of a category in the row of a substate, together with its
count as a tag, are the weight of the substate for merging. So all counts together are as many as
the scored trees have nodes. -/
theorem expectTrees_totals (rules : model.grammar.rules.Fits model.substates)
    (lexicon : model.lexicon.Consistent) (same : model.lexicon.substates = model.substates)
    (fits : ∀ tree ∈ forest.trees, tree.Fits model.substates ∧ tree.substates = 1)
    {start : Option (RuleCounts α)} {emissions : EmissionCounts α}
    (afresh : countsAfter model true = .ok (start, emissions)) (rare : α) :
    let pass := expectTrees model rare forest start emissions
    let weighing := model.mergeWeights forest
    pass.fault = none ∧ pass.result.outcome.scored = (forest.scored model).length ∧
      weighing.fault = none ∧ ∃ counts, pass.result.rules = some counts ∧
      (∀ key parents lefts rights, key.dimensions model.substates = .ok (parents, lefts, rights) →
        ∀ i < parents, ∀ j < lefts, ∀ k < rights, counts.rules.cell key i j k =
          ((forest.scored model).map fun tree => tree.expectedUses model key i j k).sum) ∧
      (∀ (state size : Nat), model.substates[state]? = some size → ∀ s < size,
        counts.rules.parentSum state s + tally pass.result.emissions.tables.tagCounts state s =
          tally weighing.result state s) ∧
      ∑ state ∈ range model.substates.length, ∑ s ∈ range (model.substates[state]?.getD 0),
        (counts.rules.parentSum state s + tally pass.result.emissions.tables.tagCounts state s) =
          (((forest.scored model).map LatentTree.size).sum : Nat) := by
  intro pass weighing
  obtain ⟨whole, none, zeros⟩ := countsAfter_zero rules same afresh
  obtain ⟨passed, scored, counts, known, covers, cells, tags⟩ :=
    expectTrees_counts rules lexicon same fits whole none rare
  obtain ⟨weighed, weights⟩ := Model.mergeWeights_tally rules lexicon same fits zeros
  have uses (key : Production) (parents lefts rights : Nat)
      (dimensions : key.dimensions model.substates = .ok (parents, lefts, rights)) (i : Nat)
      (inParent : i < parents) (j : Nat) (inLeft : j < lefts) (k : Nat) (inRight : k < rights) :
      counts.rules.cell key i j k =
        ((forest.scored model).map fun tree => tree.expectedUses model key i j k).sum :=
    cells ⟨key, i, j, k, parents, lefts, rights, dimensions, inParent, inLeft, inRight⟩
  have scores (tree : LatentTree α) (member : tree ∈ forest.scored model) :
      ∃ scored, tree.ScoredAs model scored := by
    obtain ⟨fitting, single⟩ := fits tree (List.mem_filter.mp member).1
    obtain ⟨scored, -, scores⟩ := LatentTree.computeBoth_scores rules lexicon same fitting single
    exact ⟨scored, scores⟩
  have visits (state size : Nat) (found : model.substates[state]? = some size) (s : Nat)
      (below : s < size) :
      counts.rules.parentSum state s + tally pass.result.emissions.tables.tagCounts state s =
        ((forest.scored model).map fun tree => tree.expectedVisits model state s).sum := by
    rw [tags state s]
    exact covers.parentSum_add scores cells found below
  refine ⟨passed, scored, weighed, counts, known, uses, ?_, ?_⟩
  · intro state size found s below
    rw [visits state size found s below, weights state s]
  · have each (state : Nat) (member : state ∈ range model.substates.length) (s : Nat)
        (inside : s ∈ range (model.substates[state]?.getD 0)) :
        counts.rules.parentSum state s + tally pass.result.emissions.tables.tagCounts state s =
          ((forest.scored model).map fun tree => tree.expectedVisits model state s).sum := by
      have found := List.getElem?_eq_getElem (mem_range.mp member)
      rw [found] at inside
      exact visits state _ found s (mem_range.mp inside)
    rw [sum_congr rfl fun state member => sum_congr rfl (each state member)]
    simp only [sum_list_comm]
    rw [Nat.cast_list_sum, List.map_map]
    congr 1
    apply List.map_congr_left
    intro tree member
    obtain ⟨scored, scores⟩ := scores tree member
    exact scores.sum_visits (of_decide_eq_true (List.mem_filter.mp member).2)

/-- One sentence, whose tree the small model gives weight. -/
def sampleForest : Forest Rat := ⟨[sampleTree], [1, 2]⟩

theorem sampleForest_fits :
    ∀ tree ∈ sampleForest.trees, tree.Fits sampleModel.substates ∧ tree.substates = 1 := by
  intro tree member
  obtain rfl := List.mem_singleton.mp member
  exact ⟨sampleTree_fits, rfl⟩

theorem sampleForest_scored : sampleForest.scored sampleModel = [sampleTree] :=
  List.filter_cons_of_pos (by decide +kernel)

theorem sampleForest_totals :
    ∃ start emissions counts, countsAfter sampleModel true = .ok (start, emissions) ∧
      (expectTrees sampleModel 0 sampleForest start emissions).result.rules = some counts ∧
      counts.rules.cell (.binary 1 1 1) 0 0 1 = 1 / 2 ∧
      ∑ state ∈ range 2, ∑ s ∈ range ([1, 2][state]?.getD 0),
        (counts.rules.parentSum state s + tally (expectTrees sampleModel 0 sampleForest start
          emissions).result.emissions.tables.tagCounts state s) = 4 := by
  obtain ⟨⟨start, emissions⟩, afresh⟩ : ∃ counts, countsAfter sampleModel true = .ok counts :=
    ⟨_, rfl⟩
  obtain ⟨-, -, -, counts, known, uses, -, total⟩ := expectTrees_totals sampleModel_rules_fit
    sampleModel_lexicon_consistent rfl sampleForest_fits afresh 0
  refine ⟨start, emissions, counts, afresh, known, ?_, ?_⟩
  · rw [uses (.binary 1 1 1) 2 2 2 rfl 0 (by decide) 0 (by decide) 1 (by decide),
      sampleForest_scored]
    decide +kernel
  · rw [sampleForest_scored] at total
    exact total

end Training

end LatentGrammar
