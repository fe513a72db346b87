import LatentGrammar.Proofs.Merging.Undoing
import LatentGrammar.Proofs.Reestimation.Likelihood
import LatentGrammar.Proofs.Schedule.Frames

namespace LatentGrammar

open Finset

variable {α : Type} {substates : List Nat} {key : Production} {state : Nat}

namespace LatentTree

variable {tree first second : LatentTree α}

/-- The rules that expand the nodes of a tree, node by node. -/
def productions (tree : LatentTree α) : List Production := tree.subtrees.filterMap rule?

theorem productions_skeleton (tree : LatentTree α) :
    tree.skeleton.productions = tree.productions := by
  have same : rule? ∘ (skeleton : LatentTree α → LatentTree Unit) = rule? := by
    funext node
    cases node <;> simp [rule?, skeleton]
  rw [productions, productions, subtrees_skeleton, List.filterMap_map, same]

end LatentTree

namespace Forest

variable {forest other : Forest α}

/-- The rules that expand the nodes of all trees. -/
def productions (forest : Forest α) : List Production := forest.trees.flatMap LatentTree.productions

/-- How many nodes a rule expands. -/
def applications (forest : Forest α) (key : Production) : Nat := forest.productions.count key

/-- How many nodes of a category are expanded by rules. -/
def expansions (forest : Forest α) (state : Nat) : Nat :=
  forest.productions.countP (·.parent = state)

theorem productions_of_skeletons (same : forest.skeletons = other.skeletons) :
    forest.productions = other.productions := by
  have skeletal (forest : Forest α) :
      forest.productions = forest.skeletons.flatMap LatentTree.productions := by
    rw [productions, skeletons, List.flatMap_map]
    simp only [LatentTree.productions_skeleton]
  rw [skeletal, skeletal, same]

theorem applications_of_unknown {β : Type} {table : RuleTable β}
    (known : ∀ key ∈ forest.productions, (table.find? key).isSome)
    (absent : table.find? key = none) : forest.applications key = 0 := by
  refine List.count_eq_zero.mpr fun member => ?_
  simpa [absent] using known key member

theorem sum_applications {keys : Finset Production} (all : ∀ key ∈ forest.productions, key ∈ keys)
    (state : Nat) :
    ∑ key ∈ keys with key.parent = state, forest.applications key = forest.expansions state := by
  unfold applications expansions
  generalize forest.productions = productions at all
  induction productions with
  | nil => simp
  | cons first rest ih =>
    obtain ⟨here, later⟩ := List.forall_mem_cons.mp all
    have once : ∑ key ∈ keys with key.parent = state, (if first = key then 1 else 0) =
        if first.parent = state then 1 else 0 := by
      simp only [sum_ite_eq, mem_filter, here, true_and]
    simp only [List.count_cons, beq_iff_eq, List.countP_cons, sum_add_distrib, ih later, once,
      decide_eq_true_eq]

end Forest

/-- Every category has one substate. -/
def Unsplit (substates : List Nat) : Prop := ∀ size ∈ substates, size = 1

namespace Unsplit

variable (unsplit : Unsplit substates)

include unsplit

theorem fill_eq {β : Type} (value : β) :
    substates.mapM (fill · value) = .ok (substates.map fun _ => [value]) := by
  apply mapM_eq_map
  intro size member
  rw [unsplit size member]
  rfl

theorem dimensions {parents lefts rights : Nat}
    (found : key.dimensions substates = .ok (parents, lefts, rights)) :
    parents = 1 ∧ lefts = 1 ∧ rights = 1 := by
  have single {state size : Nat} (known : substates[state]? = some size) : size = 1 :=
    unsplit size (List.mem_of_getElem? known)
  cases key with
  | unary parent child =>
    obtain ⟨parentFound, childFound, rights⟩ := Production.dimensions_unary_iff.mp found
    exact ⟨single parentFound, single childFound, rights⟩
  | binary parent left right =>
    obtain ⟨parentFound, leftFound, rightFound⟩ := Production.dimensions_binary_iff.mp found
    exact ⟨single parentFound, single leftFound, single rightFound⟩

theorem substates_eq {tree : LatentTree α} (fits : tree.Fits substates) : tree.substates = 1 :=
  unsplit _ (List.mem_of_getElem? fits.substates_eq)

theorem sized {table : RuleTable α} (fits : table.Fits substates) {block : RuleBlock α}
    (found : table.find? key = some block) :
    key.dimensions substates = .ok (1, 1, 1) ∧ block.Sized 1 1 1 := by
  obtain ⟨parents, lefts, rights, dims, sized⟩ := fits.find? found
  obtain ⟨rfl, rfl, rfl⟩ := unsplit.dimensions dims
  exact ⟨dims, sized⟩

end Unsplit

variable [ExactScalar α] {model : Model α} {forest : Forest α}

namespace LatentTree

variable {tree node scored : LatentTree α}

/-- All weight of a tree goes through every node. -/
theorem Exact.visit_unsplit (exact : tree.Exact model) (unsplit : Unsplit substates)
    (fits : tree.Fits substates) (member : node ∈ tree.subtrees) :
    node.visit 0 = tree.totalWeight model := by
  obtain ⟨index, found⟩ := List.getElem?_of_mem member
  have scores := exact.sum_scores (at_of_getElem? found)
  rw [unsplit.substates_eq (fits.of_mem member), sum_range_one] at scores
  exact scores

theorem sum_map_expands (nodes : List (LatentTree α)) (key : Production) :
    (nodes.map fun node => if node.rule? = some key then (1 : α) else 0).sum =
      ((nodes.filterMap rule?).count key : Nat) := by
  induction nodes with
  | nil => simp
  | cons node rest ih =>
    rw [List.map_cons, List.sum_cons, ih]
    cases expands : node.rule? with
    | none => simp [expands]
    | some other =>
      by_cases same : other = key
      · simp [expands, same, add_comm]
      · simp [expands, same]

theorem Exact.expectedUses_unsplit (exact : tree.Exact model) (unsplit : Unsplit substates)
    (fits : tree.Fits substates) (positive : 0 < tree.totalWeight model)
    (dimensions : key.dimensions substates = .ok (1, 1, 1)) :
    tree.expectedUses model key 0 0 0 = (tree.productions.count key : Nat) := by
  have uses := exact.sum_expectedUses fits dimensions zero_lt_one
  rw [sum_range_one, sum_range_one] at uses
  rw [uses, productions, ← sum_map_expands]
  congr 1
  refine List.map_congr_left fun node member => ?_
  rw [exact.visit_unsplit unsplit fits member, div_self positive.ne']

/-- A rule that expands a node of a tree with a weight is a rule of the grammar. -/
theorem Exact.rule_known (exact : tree.Exact model) (unsplit : Unsplit substates)
    (fits : tree.Fits substates) (positive : 0 < tree.totalWeight model)
    (member : key ∈ tree.productions) : (model.grammar.rules.find? key).isSome := by
  obtain ⟨node, listed, expands⟩ := List.mem_filterMap.mp member
  obtain ⟨index, found⟩ := List.getElem?_of_mem listed
  have nodeFits := fits.of_mem listed
  obtain ⟨parents, lefts, rights, dimensions⟩ := nodeFits.dimensions expands
  by_contra missing
  have absent : model.grammar.rules.find? key = none := by simpa using missing
  have visit := (exact.inside.at_ (at_of_getElem? found)).sum_use nodeFits expands dimensions
    ((unsplit.substates_eq nodeFits).symm ▸ zero_lt_one)
  simp only [RuleCounts.use_of_absent expands absent, sum_const_zero] at visit
  rw [exact.visit_unsplit unsplit fits listed] at visit
  exact positive.ne visit

end LatentTree

/-- A model without latent structure: one substate for every category, nothing that is smoothed or
pruned, and tables that fit. -/
structure Model.Baseline (model : Model α) : Prop where
  unsplit : Unsplit model.substates
  plain : model.grammar.smoothing = .none
  keeps : model.grammar.threshold ≤ 0
  rules : model.grammar.rules.Fits model.substates
  ordered : model.grammar.rules.Ordered
  lexicon : model.lexicon.Consistent
  same : model.lexicon.substates = model.substates

/-- The model gives the tree a positive mass. -/
def Model.Weighs (model : Model α) (tree : LatentTree α) : Prop :=
  ∃ mass, tree.massUnder model = .ok mass ∧ 0 < mass

namespace Model.Baseline

variable {tree : LatentTree α}

theorem totalWeight_pos (baseline : model.Baseline) (fits : tree.Fits model.substates)
    (weighs : model.Weighs tree) : 0 < tree.totalWeight model := by
  obtain ⟨mass, found, positive⟩ := weighs
  rw [LatentTree.massUnder_eq baseline.rules baseline.lexicon baseline.same fits
    (baseline.unsplit.substates_eq fits)] at found
  rwa [Except.ok.inj found]

/-- A tree with a weight uses its rules as often as they occur, and all of them are known. -/
theorem tree_uses (baseline : model.Baseline) (fits : tree.Fits model.substates)
    (weighs : model.Weighs tree) :
    (∀ key ∈ tree.productions, (model.grammar.rules.find? key).isSome) ∧
      ∀ key, key.dimensions model.substates = .ok (1, 1, 1) →
        tree.expectedUses model key 0 0 0 = (tree.productions.count key : Nat) := by
  have positive := baseline.totalWeight_pos fits weighs
  obtain ⟨scored, success, scores⟩ := LatentTree.computeBoth_scores baseline.rules
    baseline.lexicon baseline.same fits (baseline.unsplit.substates_eq fits)
  have nodes : scored.productions = tree.productions := by
    rw [← scored.productions_skeleton, LatentTree.computeBoth_skeleton success,
      tree.productions_skeleton]
  rw [← scores.alike.totalWeight_eq] at positive
  refine ⟨fun key member => ?_, fun key dimensions => ?_⟩
  · rw [← nodes] at member
    exact scores.exact.rule_known baseline.unsplit scores.fits positive member
  · rw [← scores.alike.expectedUses_eq, ← nodes]
    exact scores.exact.expectedUses_unsplit baseline.unsplit scores.fits positive dimensions

/-- All trees together use a rule as often as it occurs. -/
theorem forest_uses (baseline : model.Baseline)
    (fits : ∀ tree ∈ forest.trees, tree.Fits model.substates)
    (weighs : ∀ tree ∈ forest.trees, model.Weighs tree) :
    (∀ key ∈ forest.productions, (model.grammar.rules.find? key).isSome) ∧
      ∀ key, key.dimensions model.substates = .ok (1, 1, 1) →
        model.expectedTotal (forest.scored model) (key, 0, 0, 0) = forest.applications key := by
  refine ⟨fun key member => ?_, fun key dimensions => ?_⟩
  · obtain ⟨tree, listed, occurs⟩ := List.mem_flatMap.mp member
    exact (baseline.tree_uses (fits tree listed) (weighs tree listed)).1 key occurs
  · have all : forest.scored model = forest.trees := by
      rw [Forest.scored, List.filter_eq_self]
      intro tree listed
      exact decide_eq_true (baseline.totalWeight_pos (fits tree listed) (weighs tree listed))
    rw [all, Model.expectedTotal, Forest.applications, Forest.productions, List.count_flatMap,
      Nat.cast_list_sum, List.map_map]
    congr 1
    refine List.map_congr_left fun tree listed => ?_
    exact (baseline.tree_uses (fits tree listed) (weighs tree listed)).2 key dimensions

theorem countsAfter_ok (baseline : model.Baseline) :
    ∃ start emissions, Training.countsAfter model true = .ok (start, emissions) := by
  have blank : ∃ rules, RuleCounts.after model.grammar = .ok rules := by
    have each : ∀ entry ∈ model.grammar.rules.entries,
        (do return (entry.1, ← RuleBlock.zeros entry.2.parents entry.2.lefts entry.2.rights)) =
          Except.ok (ε := Fault) (entry.1, (⟨1, 1, 1, #[0]⟩ : RuleBlock α)) := by
      intro entry member
      obtain ⟨parents, lefts, rights, dimensions, sized⟩ := baseline.rules entry member
      obtain ⟨rfl, rfl, rfl⟩ := baseline.unsplit.dimensions dimensions
      rw [sized.parents_eq, sized.lefts_eq, sized.rights_eq]
      rfl
    have mapped := mapM_eq_map each
    exact ⟨_, by simp only [RuleCounts.after, RuleTable.mapScoresM, mapped]; rfl⟩
  obtain ⟨rules, begun⟩ := blank
  have tags := Unsplit.fill_eq (baseline.same ▸ baseline.unsplit) (0 : α)
  have emissions : ∃ emissions, EmissionCounts.after model.lexicon = .ok emissions :=
    ⟨_, by simp only [EmissionCounts.after, EmissionTables.empty, tags]; rfl⟩
  obtain ⟨emissions, opened⟩ := emissions
  exact ⟨some rules, emissions, by simp only [Training.countsAfter, begun, opened]; rfl⟩

end Model.Baseline

namespace RuleTable

variable {table other : RuleTable α}

/-- With one substate for every category, a rule has as much to it as its single cell. -/
theorem Fits.find?_eq_of_cells (unsplit : Unsplit substates) (fits : table.Fits substates)
    (otherFits : other.Fits substates)
    (known : (table.find? key).isSome = (other.find? key).isSome)
    (cells : table.cell key 0 0 0 = other.cell key 0 0 0) : table.find? key = other.find? key := by
  cases here : table.find? key with
  | none =>
    rw [here] at known
    exact (Option.not_isSome_iff_eq_none.mp (by simp [← known])).symm
  | some block =>
    rw [here] at known
    obtain ⟨new, there⟩ := Option.isSome_iff_exists.mp known.symm
    rw [there]
    congr 1
    refine (unsplit.sized fits here).2.ext (unsplit.sized otherFits there).2 ?_
    intro i parent j left k right
    obtain rfl := Nat.lt_one_iff.mp parent
    obtain rfl := Nat.lt_one_iff.mp left
    obtain rfl := Nat.lt_one_iff.mp right
    rwa [cell_of_find? here, cell_of_find? there] at cells

end RuleTable

end LatentGrammar
