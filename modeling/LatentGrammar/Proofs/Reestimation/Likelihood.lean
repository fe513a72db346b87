import LatentGrammar.Proofs.Consistency.Run
import LatentGrammar.Proofs.Reestimation.Gain
import LatentGrammar.Proofs.Reestimation.Normalize

namespace LatentGrammar

open Finset Real

variable {α γ : Type} [ExactScalar α] [Draws γ α] {model next : Model α}

/-- How often all trees are expected to use a rule. -/
def Model.expectedTotal (model : Model α) (trees : List (LatentTree α)) (use : RuleUse) : α :=
  (trees.map fun tree => tree.expectedUse model use).sum

/-- The words have their old scores, and the rules shares of what the old ones are expected to be
used in the trees, row by row. -/
structure Model.Reestimates (next model : Model α) (trees : List (LatentTree α)) : Prop where
  words : next.lexicon = model.lexicon
  rules : ∀ use ∈ model.grammar.rules.uses, next.grammar.rules.score use =
    model.expectedTotal trees use
      / ∑ other ∈ model.grammar.rules.uses with other.row = use.row, model.expectedTotal trees other

/-- The scores in no row of a grammar add up to more than one. -/
def RuleTable.RowsWithinOne (table : RuleTable α) (substates : List Nat) : Prop :=
  ∀ (state size : Nat), substates[state]? = some size → ∀ s < size, table.parentSum state s ≤ 1

namespace Model

variable {trees : List (LatentTree α)} {real : α →+*o ℝ}

theorem expectedTotal_nonneg (nonneg : model.Nonneg) (use : RuleUse) :
    0 ≤ model.expectedTotal trees use := by
  apply List.sum_nonneg
  intro expected listed
  obtain ⟨tree, -, rfl⟩ := List.mem_map.mp listed
  exact tree.expectedUse_nonneg nonneg use

theorem expectedUse_le_total (nonneg : model.Nonneg) {tree : LatentTree α} (member : tree ∈ trees)
    (use : RuleUse) : tree.expectedUse model use ≤ model.expectedTotal trees use := by
  apply List.single_le_sum _ _ (List.mem_map_of_mem member)
  intro expected listed
  obtain ⟨tree, -, rfl⟩ := List.mem_map.mp listed
  exact tree.expectedUse_nonneg nonneg use

theorem score_pos_of_expectedTotal (nonneg : model.Nonneg) {use : RuleUse}
    (expected : 0 < model.expectedTotal trees use) : 0 < model.grammar.rules.score use := by
  refine (nonneg.rules use).lt_of_ne' fun zero => expected.ne' <|
    List.sum_eq_zero fun value listed => ?_
  obtain ⟨tree, -, rfl⟩ := List.mem_map.mp listed
  by_contra some
  obtain ⟨d, member, positive, used⟩ := LatentTree.exists_of_expectedUse_pos nonneg
    ((tree.expectedUse_nonneg nonneg use).lt_of_ne' some)
  exact (((LatentTree.weight_pos_iff nonneg member).mp positive).2 use used).ne' zero

theorem prod_totalWeight_pos (positive : ∀ tree ∈ trees, 0 < tree.totalWeight model) :
    0 < (trees.map (·.totalWeight model)).prod := by
  refine List.prod_pos fun weight listed => ?_
  obtain ⟨tree, member, rfl⟩ := List.mem_map.mp listed
  exact positive tree member

theorem log_prod_totalWeight (increasing : StrictMono real)
    (positive : ∀ tree ∈ trees, 0 < tree.totalWeight model) :
    log (real (trees.map (·.totalWeight model)).prod) =
      (trees.map fun tree => log (real (tree.totalWeight model))).sum := by
  rw [map_list_prod, log_list_prod]
  · simp only [List.map_map, Function.comp_def]
  · intro weight listed
    simp only [List.map_map, List.mem_map] at listed
    obtain ⟨tree, member, rfl⟩ := listed
    exact (real_pos increasing (positive tree member)).ne'

namespace Reestimates

/-- What some tree is expected to use keeps a score. -/
theorem score_pos (reestimates : next.Reestimates model trees) (nonneg : model.Nonneg)
    {tree : LatentTree α} (member : tree ∈ trees) {use : RuleUse}
    (listed : use ∈ model.grammar.rules.uses) (expected : 0 < tree.expectedUse model use) :
    0 < next.grammar.rules.score use := by
  have total := expected.trans_le (expectedUse_le_total nonneg member use)
  rw [reestimates.rules use listed]
  refine div_pos total (sum_pos' (fun other _ => expectedTotal_nonneg nonneg other) ⟨use, ?_, total⟩)
  exact mem_filter.mpr ⟨listed, rfl⟩

/-- No row loses: the shares of the expected counts are the best scores for them. -/
theorem row_gain_nonneg (reestimates : next.Reestimates model trees) (increasing : StrictMono real)
    (nonneg : model.Nonneg) (rules : model.grammar.rules.Fits model.substates)
    (rows : model.grammar.rules.RowsWithinOne model.substates) {row : Nat × Nat}
    (inside : row ∈ model.grammar.rules.uses.image RuleUse.row) :
    0 ≤ ∑ use ∈ model.grammar.rules.uses with use.row = row,
      real (model.expectedTotal trees use) * model.gain real next use := by
  obtain ⟨first, listed, rfl⟩ := mem_image.mp inside
  obtain ⟨-, parents, lefts, rights, dimensions, parent, -⟩ := rules.mem_uses.mp listed
  have within := rows _ _ (Production.parent_of_dimensions dimensions) _ parent
  rw [← rules.parentSum_eq (Production.parent_of_dimensions dimensions) parent] at within
  have share (use : RuleUse) (member : use ∈ model.grammar.rules.uses.filter (·.row = first.row)) :
      real (model.expectedTotal trees use) * model.gain real next use =
        real (model.expectedTotal trees use)
          * (log (real (model.expectedTotal trees use)
              / ∑ other ∈ model.grammar.rules.uses with other.row = first.row,
                  real (model.expectedTotal trees other))
            - log (real (model.grammar.rules.score use))) := by
    obtain ⟨used, same⟩ := mem_filter.mp member
    rw [gain, reestimates.rules use used, same, map_div₀, map_sum]
  rw [sum_congr rfl share]
  apply sum_mul_log_share_sub_nonneg
  · exact fun use _ => map_nonneg real (expectedTotal_nonneg nonneg use)
  · exact fun use _ => map_nonneg real (nonneg.rules use)
  · intro use _ expected
    have positive : 0 < model.expectedTotal trees use :=
      increasing.lt_iff_lt.mp (by rwa [map_zero])
    exact real_pos increasing (score_pos_of_expectedTotal nonneg positive)
  · rw [← map_sum, ← map_one real]
    exact increasing.monotone within

theorem total_gain_nonneg (reestimates : next.Reestimates model trees)
    (increasing : StrictMono real) (nonneg : model.Nonneg)
    (rules : model.grammar.rules.Fits model.substates)
    (rows : model.grammar.rules.RowsWithinOne model.substates) :
    0 ≤ (trees.map fun tree => ∑ use ∈ model.grammar.rules.uses,
      real (tree.expectedUse model use) * model.gain real next use).sum := by
  have total (use : RuleUse) : (trees.map fun tree =>
      real (tree.expectedUse model use) * model.gain real next use).sum =
      real (model.expectedTotal trees use) * model.gain real next use := by
    rw [List.sum_map_mul_right, expectedTotal, map_list_sum, List.map_map]
    rfl
  rw [← sum_list_comm, sum_congr rfl fun use _ => total use,
    ← sum_fiberwise_of_maps_to fun use member => mem_image_of_mem RuleUse.row member]
  exact sum_nonneg fun row inside =>
    reestimates.row_gain_nonneg increasing nonneg rules rows inside

/-- All trees keep weight, and the product of their weights does not fall. -/
theorem prod_totalWeight_le (reestimates : next.Reestimates model trees)
    (increasing : StrictMono real) (nonneg : model.Nonneg) (nextNonneg : next.Nonneg)
    (rules : model.grammar.rules.Fits model.substates)
    (rows : model.grammar.rules.RowsWithinOne model.substates)
    (fits : ∀ tree ∈ trees, tree.Fits model.substates)
    (positive : ∀ tree ∈ trees, 0 < tree.totalWeight model) :
    (∀ tree ∈ trees, 0 < tree.totalWeight next) ∧
      (trees.map (·.totalWeight model)).prod ≤ (trees.map (·.totalWeight next)).prod := by
  have each (tree : LatentTree α) (member : tree ∈ trees) :=
    LatentTree.sum_expectedUse_mul_gain_le increasing nonneg nextNonneg reestimates.words
      (fun use expected =>
        have listed :=
          LatentTree.mem_uses_of_expectedUse_pos nonneg rules (fits tree member) expected
        ⟨listed, reestimates.score_pos nonneg member listed expected⟩) (positive tree member)
  have nextPositive (tree : LatentTree α) (member : tree ∈ trees) := (each tree member).1
  refine ⟨nextPositive, ?_⟩
  have gained := reestimates.total_gain_nonneg increasing nonneg rules rows
  have grown := List.sum_le_sum fun tree member => le_sub_iff_add_le.mp (each tree member).2
  rw [List.sum_map_add] at grown
  rw [← increasing.le_iff_le, ← log_le_log_iff
      (real_pos increasing (prod_totalWeight_pos positive))
      (real_pos increasing (prod_totalWeight_pos nextPositive)),
    log_prod_totalWeight increasing positive, log_prod_totalWeight increasing nextPositive]
  linarith

end Reestimates

end Model

omit [ExactScalar α] in
theorem RuleCounts.Covers.uses_eq {counts : RuleCounts α} {grammar : Grammar α}
    {substates : List Nat} (covers : counts.Covers grammar substates)
    (rules : grammar.rules.Fits substates) : counts.rules.uses = grammar.rules.uses := by
  ext ⟨key, i, j, k⟩
  rw [covers.fits.mem_uses, rules.mem_uses, ← Option.isSome_iff_exists,
    ← Option.isSome_iff_exists, covers.same key]

namespace LatentTree

variable {tree : LatentTree α}

/-- The mass that scoring gives a tree, taken out of its scale. -/
def massUnder (model : Model α) (tree : LatentTree α) : Except Fault α := do
  let scored ← tree.computeInside model
  return (← scored.mass) * Scalar.scaleFactor scored.inside.scale

theorem massUnder_eq (rules : model.grammar.rules.Fits model.substates)
    (lexicon : model.lexicon.Consistent) (same : model.lexicon.substates = model.substates)
    (fits : tree.Fits model.substates) (single : tree.substates = 1) :
    tree.massUnder model = .ok (tree.totalWeight model) := by
  obtain ⟨scored, success, alike, exact⟩ := exists_computeInside rules lexicon same fits
  have one : scored.substates = 1 := alike.substates_eq.trans single
  simp only [massUnder, success, mass_eq one, ok_bind, exact.mass_mul one, alike.totalWeight_eq]
  rfl

end LatentTree

namespace Training

variable {forest : Forest α}

/-- A pass that starts from nothing counts what the trees are expected to use. -/
theorem expectAfresh_counts (rules : model.grammar.rules.Fits model.substates)
    (ordered : model.grammar.rules.Ordered) (lexicon : model.lexicon.Consistent)
    (same : model.lexicon.substates = model.substates)
    (fits : ∀ tree ∈ forest.trees, tree.Fits model.substates ∧ tree.substates = 1)
    {start : Option (RuleCounts α)} {emissions : EmissionCounts α}
    (afresh : countsAfter model true = .ok (start, emissions)) (rare : α) :
    ∃ scored expectation counts,
      expectAfresh model rare forest true = (scored, .ok expectation) ∧
        expectation.rules = some counts ∧ counts.Covers model.grammar model.substates ∧
        counts.OrderedIn model.grammar.toGrammarFrame ∧
        ∀ use ∈ model.grammar.rules.uses,
          counts.rules.score use = model.expectedTotal (forest.scored model) use := by
  obtain ⟨whole, none, -⟩ := countsAfter_zero rules same afresh
  obtain ⟨passed, -, counts, known, covers, cells, -⟩ :=
    expectTrees_counts rules lexicon same fits whole none rare
  obtain ⟨-, kept, -⟩ := Forest.sweep_grows (LatentTree.contribution model)
    (fun index tree expectation fits whole =>
      expectTree_grows rules lexicon same fits.1 fits.2 rare forest.size index whole) fits whole 0
  have inOrder := expectTrees_orderedIn ordered afresh passed counts known
  change (expectTrees model rare forest start emissions).result.Whole model at kept
  generalize swept : expectTrees model rare forest start emissions = pass at passed known kept
  obtain ⟨tied, done, -⟩ := delivers_never_iff.mp <|
    EmissionCounts.tieRare_delivers kept.emissions rare
  refine ⟨{ forest with trees := pass.trees }, { pass.result with emissions := tied }, counts, ?_,
    known, covers, inOrder, ?_⟩
  · simp only [expectAfresh, afresh, expect, swept, passed, done, Pass.ofSweep]
  · rintro ⟨key, i, j, k⟩ listed
    obtain ⟨-, parents, lefts, rights, dimensions, inside⟩ := rules.mem_uses.mp listed
    exact cells ⟨key, i, j, k, parents, lefts, rights, dimensions, inside⟩

/-- Probabilities that are estimated from such counts without noise re-estimate the model. -/
theorem estimate_reestimates {trees : List (LatentTree α)} {counts : RuleCounts α}
    (rules : model.grammar.rules.Fits model.substates) (nonneg : model.Nonneg)
    (plain : model.grammar.smoothing = .none) (keeps : model.grammar.threshold ≤ 0)
    (covers : counts.Covers model.grammar model.substates)
    (orderedIn : counts.OrderedIn model.grammar.toGrammarFrame)
    (expected : ∀ use ∈ model.grammar.rules.uses,
      counts.rules.score use = model.expectedTotal trees use)
    {zeros : List (List α)} (start : model.substates.mapM (fill · (0 : α)) = .ok zeros)
    (stream : γ) :
    ∃ grammar, counts.estimate 0 stream = .ok (grammar, stream) ∧
      grammar.substates = model.substates ∧ grammar.rules.Fits model.substates ∧
      (⟨grammar, model.lexicon⟩ : Model α).Reestimates model trees ∧
      (⟨grammar, model.lexicon⟩ : Model α).Nonneg := by
  obtain ⟨sameFrame, ordered⟩ := orderedIn
  have sizes : counts.substates = model.substates := congrArg GrammarFrame.substates sameFrame
  have sameUses := covers.uses_eq rules
  have counted : ∀ use, 0 ≤ counts.rules.score use := covers.fits.score_nonneg fun use listed => by
    rw [expected use (sameUses ▸ listed)]
    exact Model.expectedTotal_nonneg nonneg use
  obtain ⟨grammar, normalized, frame, fits, shares⟩ := RuleCounts.normalize_eq (sizes ▸ covers.fits)
    ordered ((congrArg GrammarFrame.smoothing sameFrame).trans plain)
    ((congrArg GrammarFrame.threshold sameFrame).trans_le keeps)
    (fun key i j k => counted (key, i, j, k)) (sizes ▸ start)
  rw [sizes] at fits shares
  have share (use : RuleUse) (parents lefts rights : Nat)
      (dimensions : use.1.dimensions model.substates = .ok (parents, lefts, rights))
      (inside : use.2.1 < parents ∧ use.2.2.1 < lefts ∧ use.2.2.2 < rights) :
      grammar.rules.score use =
        counts.rules.score use / counts.rules.parentSum use.1.parent use.2.1 :=
    shares use.1 parents lefts rights dimensions _ inside.1 _ inside.2.1 _ inside.2.2
  refine ⟨grammar, RuleCounts.estimate_zero normalized stream, by rw [frame, sizes], fits,
    ⟨rfl, fun use listed => ?_⟩, fun use => ?_, nonneg.words⟩
  · obtain ⟨-, parents, lefts, rights, dimensions, inside⟩ := rules.mem_uses.mp listed
    rw [share use parents lefts rights dimensions inside, expected use listed,
      ← covers.fits.parentSum_eq (Production.parent_of_dimensions dimensions) inside.1, sameUses]
    congr 1
    exact sum_congr rfl fun other member => expected other (mem_filter.mp member).1
  · refine fits.score_nonneg (fun use listed => ?_) use
    obtain ⟨-, parents, lefts, rights, dimensions, inside⟩ := fits.mem_uses.mp listed
    rw [share use parents lefts rights dimensions inside]
    exact div_nonneg (counted use)
      (RuleTable.parentSum_nonneg (fun key i j k => counted (key, i, j, k)) _ _)

/-- Re-estimation never lowers the likelihood of the trees that it counts, if no score is negative,
no row of the grammar adds up to more than one, and nothing is smoothed or pruned: a pass over the
forest comes to its end, and a grammar of shares of the expected counts is estimated without noise.
Together with the old lexicon it gives every tree that had a mass a mass again, and the product of
these masses is at least what it was. -/
theorem estimate_raises_likelihood [Archimedean α]
    (rules : model.grammar.rules.Fits model.substates) (ordered : model.grammar.rules.Ordered)
    (rows : model.grammar.rules.RowsWithinOne model.substates)
    (plain : model.grammar.smoothing = .none) (keeps : model.grammar.threshold ≤ 0)
    (lexicon : model.lexicon.Consistent) (same : model.lexicon.substates = model.substates)
    (nonneg : model.Nonneg)
    (fits : ∀ tree ∈ forest.trees, tree.Fits model.substates ∧ tree.substates = 1)
    {start : Option (RuleCounts α)} {emissions : EmissionCounts α}
    (afresh : countsAfter model true = .ok (start, emissions)) (rare : α) (stream : γ) :
    (∀ tree ∈ forest.trees, tree ∈ forest.scored model ↔
      ∃ mass, tree.massUnder model = .ok mass ∧ 0 < mass) ∧
    ∃ scored expectation counts grammar masses nextMasses,
      expectAfresh model rare forest true = (scored, .ok expectation) ∧
        expectation.rules = some counts ∧ counts.estimate 0 stream = .ok (grammar, stream) ∧
        (⟨grammar, model.lexicon⟩ : Model α).Reestimates model (forest.scored model) ∧
        (forest.scored model).mapM (LatentTree.massUnder model) = .ok masses ∧
        (forest.scored model).mapM (LatentTree.massUnder ⟨grammar, model.lexicon⟩) =
          .ok nextMasses ∧
        (∀ mass ∈ nextMasses, 0 < mass) ∧ masses.prod ≤ nextMasses.prod := by
  let real := ConditionallyCompleteLinearOrderedField.inducedOrderRingHom α ℝ
  have increasing : StrictMono real :=
    real.monotone'.strictMono_of_injective (RingHom.injective (real : α →+* ℝ))
  obtain ⟨-, -, zeros⟩ := countsAfter_zero rules same afresh
  obtain ⟨scored, expectation, counts, passed, known, covers, orderedIn, expected⟩ :=
    expectAfresh_counts rules ordered lexicon same fits afresh rare
  obtain ⟨grammar, estimated, sizes, nextRules, reestimates, nextNonneg⟩ :=
    estimate_reestimates rules nonneg plain keeps covers orderedIn expected zeros stream
  let next : Model α := ⟨grammar, model.lexicon⟩
  have counted (tree : LatentTree α) (member : tree ∈ forest.scored model) :
      (tree.Fits model.substates ∧ tree.substates = 1) ∧ 0 < tree.totalWeight model :=
    ⟨fits tree (List.mem_filter.mp member).1, of_decide_eq_true (List.mem_filter.mp member).2⟩
  obtain ⟨positive, grown⟩ := reestimates.prod_totalWeight_le increasing nonneg nextNonneg rules
    rows (fun tree member => (counted tree member).1.1) fun tree member => (counted tree member).2
  have mass (tree : LatentTree α) (fits : tree.Fits model.substates ∧ tree.substates = 1) :
      tree.massUnder model = .ok (tree.totalWeight model) :=
    LatentTree.massUnder_eq rules lexicon same fits.1 fits.2
  have nextMass (tree : LatentTree α) (fits : tree.Fits model.substates ∧ tree.substates = 1) :
      tree.massUnder next = .ok (tree.totalWeight next) := by
    have sameSizes : next.substates = model.substates := sizes
    have nextFits : next.grammar.rules.Fits next.substates := by rwa [sameSizes]
    have treeFits : tree.Fits next.substates := by rw [sameSizes]; exact fits.1
    exact LatentTree.massUnder_eq nextFits lexicon (same.trans sameSizes.symm) treeFits fits.2
  refine ⟨fun tree member => ?_, scored, expectation, counts, grammar, _, _, passed, known,
    estimated, reestimates, mapM_eq_map fun tree member => mass tree (counted tree member).1,
    mapM_eq_map fun tree member => nextMass tree (counted tree member).1, ?_, grown⟩
  · rw [mass tree (fits tree member), Forest.scored, List.mem_filter]
    simp [member]
  · intro mass listed
    obtain ⟨tree, member, rfl⟩ := List.mem_map.mp listed
    exact positive tree member

theorem sampleForest_likelihood :
    ∃ scored expectation counts grammar masses nextMasses,
      expectAfresh sampleModel 0 sampleForest true = (scored, .ok expectation) ∧
        expectation.rules = some counts ∧ counts.estimate 0 () = .ok (grammar, ()) ∧
        (⟨grammar, sampleModel.lexicon⟩ : Model Rat).Reestimates sampleModel [sampleTree] ∧
        [sampleTree].mapM (LatentTree.massUnder sampleModel) = .ok masses ∧
        [sampleTree].mapM (LatentTree.massUnder ⟨grammar, sampleModel.lexicon⟩) = .ok nextMasses ∧
        (∀ mass ∈ nextMasses, 0 < mass) ∧ masses.prod ≤ nextMasses.prod := by
  obtain ⟨⟨start, emissions⟩, afresh⟩ : ∃ counts, countsAfter sampleModel true = .ok counts :=
    ⟨_, rfl⟩
  have ordered : sampleModel.grammar.rules.Ordered := by
    simp [RuleTable.Ordered, sampleModel, Production.before]
  have rows : sampleModel.grammar.rules.RowsWithinOne sampleModel.substates := by
    intro state size known s below
    obtain _ | _ | _ := state
    · obtain rfl : 1 = size := Option.some.inj known
      interval_cases s
      decide +kernel
    · obtain rfl : 2 = size := Option.some.inj known
      interval_cases s <;> decide +kernel
    · cases known
  have raised := (estimate_raises_likelihood sampleModel_rules_fit ordered rows rfl le_rfl
    sampleModel_lexicon_consistent rfl sampleModel_nonneg sampleForest_fits afresh 0 ()).2
  rwa [sampleForest_scored] at raised

end Training

end LatentGrammar
