import LatentGrammar.Proofs.Merging.Losses
import LatentGrammar.Proofs.Reestimation.Gain
import LatentGrammar.Proofs.Schedule.Frames
import LatentGrammar.Proofs.Scoring.Overwriting

namespace LatentGrammar

open Finset

variable {α : Type} [ExactScalar α] {model : Model α}

namespace LatentTree

variable {tree scored node : LatentTree α} {position index before : Nat}

theorem InsideExact.inside_nonneg (nonneg : model.Nonneg)
    (exact : tree.InsideExact model position) : ∀ s < tree.substates, 0 ≤ tree.inside.score s := by
  induction tree generalizing position with
  | preterminal state word scores =>
    intro s below
    rw [LatentTree.inside, LatentTree.scores, exact s below]
    exact nonneg.words word state position s
  | unary state scores child ih =>
    intro s below
    rw [LatentTree.inside, LatentTree.scores, exact.2 s below]
    exact sum_nonneg fun j inside =>
      mul_nonneg (nonneg.rules (_, s, j, 0)) (ih exact.1 j (mem_range.mp inside))
  | binary state scores left right leftIh rightIh =>
    intro s below
    rw [LatentTree.inside, LatentTree.scores, exact.2.2 s below]
    refine sum_nonneg fun j inLeft => sum_nonneg fun k inRight => ?_
    exact mul_nonneg (mul_nonneg (nonneg.rules (_, s, j, k)) (leftIh exact.1 j (mem_range.mp inLeft)))
      (rightIh exact.2.1 k (mem_range.mp inRight))

theorem OutsideExact.outside_nonneg (nonneg : model.Nonneg) (there : tree.At index before node)
    (outside : tree.OutsideExact model.grammar) (inside : tree.InsideExact model position)
    (top : ∀ s < tree.substates, 0 ≤ tree.outside.score s) :
    ∀ s < node.substates, 0 ≤ node.outside.score s := by
  induction there generalizing position with
  | top => exact top
  | @only state scores child node index before _ ih =>
    refine ih outside.1 inside.1 fun j below => ?_
    rw [outside.2 j below]
    exact sum_nonneg fun i member =>
      mul_nonneg (nonneg.rules (_, i, j, 0)) (top i (mem_range.mp member))
  | @left state scores left node right index before _ ih =>
    have sister := inside.2.1.inside_nonneg nonneg
    refine ih outside.1 inside.1 fun j below => ?_
    rw [outside.2.2.1 j below]
    refine sum_nonneg fun i inTop => sum_nonneg fun k inRight => ?_
    exact mul_nonneg (mul_nonneg (nonneg.rules (_, i, j, k)) (top i (mem_range.mp inTop)))
      (sister k (mem_range.mp inRight))
  | @right state scores left right node index before _ ih =>
    have sister := inside.1.inside_nonneg nonneg
    refine ih outside.2.1 inside.2.1 fun k below => ?_
    rw [outside.2.2.2 k below]
    refine sum_nonneg fun i inTop => sum_nonneg fun j inLeft => ?_
    exact mul_nonneg (mul_nonneg (nonneg.rules (_, i, j, k)) (top i (mem_range.mp inTop)))
      (sister j (mem_range.mp inLeft))

namespace Exact

variable (exact : tree.Exact model) (nonneg : model.Nonneg) (member : node ∈ tree.subtrees)

include exact nonneg member

theorem entries_nonneg :
    (∀ s < node.substates, 0 ≤ entry node.inside.values s) ∧
      ∀ s < node.substates, 0 ≤ entry node.outside.values s := by
  obtain ⟨index, found⟩ := List.getElem?_of_mem member
  have there := at_of_getElem? found
  have inside := (exact.inside.at_ there).inside_nonneg nonneg
  have outside := exact.outside.outside_nonneg nonneg there exact.inside fun s below => by
    rw [exact.top s below]
    exact zero_le_one
  exact ⟨fun s below => (mul_nonneg_iff_of_pos_right (ExactScalar.scaleFactor_pos _)).mp
    (inside s below), fun s below =>
      (mul_nonneg_iff_of_pos_right (ExactScalar.scaleFactor_pos _)).mp (outside s below)⟩

theorem visit_nonneg (s : Nat) : 0 ≤ node.visit s := by
  obtain ⟨inside, outside⟩ := exact.entries_nonneg nonneg member
  by_cases below : s < node.substates
  · rw [visit, ← entry_mul_nodeScale]
    exact mul_nonneg (mul_nonneg (inside s below) (outside s below)) node.nodeScale_pos.le
  · exact (visit_eq_zero (Nat.le_of_not_lt below)).ge

end Exact

/-- Every node of a tree sees its mass, in some scale. -/
theorem Exact.nodeTotal_pos (exact : tree.Exact model) (heavy : 0 < tree.totalWeight model)
    (fits : tree.Fits model.substates) (member : node ∈ tree.subtrees) : 0 < node.nodeTotal := by
  obtain ⟨index, found⟩ := List.getElem?_of_mem member
  have total := (nodeTotal_mul (fits.of_mem member).top.outside).trans
    (exact.sum_scores (at_of_getElem? found))
  exact (mul_pos_iff_of_pos_right node.nodeScale_pos).mp (total ▸ heavy)

theorem expectedVisits_nonneg (nonneg : model.Nonneg) (tree : LatentTree α) (state s : Nat) :
    0 ≤ tree.expectedVisits model state s := by
  unfold expectedVisits expected probability
  refine sum_nonneg fun index _ => div_nonneg (sum_nonneg fun d member => ?_)
    (sum_nonneg fun d member => weight_nonneg nonneg member)
  exact weight_nonneg nonneg (mem_filter.mp member).1

/-- A visit at one node is a share of what is expected. -/
theorem ScoredAs.expectedVisits_pos (scores : tree.ScoredAs model scored) (nonneg : model.Nonneg)
    (heavy : 0 < entry scored.inside.values 0) (member : node ∈ scored.subtrees) {s : Nat}
    (visited : 0 < node.visit s) : 0 < tree.expectedVisits model node.state s := by
  have mass : 0 < entry scored.inside.values 0 * Scalar.scaleFactor scored.inside.scale :=
    mul_pos heavy (ExactScalar.scaleFactor_pos _)
  rw [← scores.visits node.state s]
  refine lt_of_lt_of_le (div_pos visited mass) (List.single_le_sum ?_ _ ?_)
  · refine List.forall_mem_map.mpr fun other present => ?_
    split
    · exact div_nonneg (scores.exact.visit_nonneg nonneg present s) mass.le
    · exact le_rfl
  · exact List.mem_map.mpr ⟨node, member, if_pos rfl⟩

end LatentTree

section Shares

variable {weight other : α}

theorem shareOf_nonneg (nonneg : 0 ≤ weight) (others : 0 ≤ other) : 0 ≤ shareOf weight other := by
  unfold shareOf
  split
  · exact div_nonneg nonneg (add_nonneg nonneg others)
  · exact one_half_pos.le

theorem shareOf_pos (positive : 0 < weight) (others : 0 ≤ other) : 0 < shareOf weight other := by
  have some := add_pos_of_pos_of_nonneg positive others
  rw [shareOf, if_pos some]
  exact div_pos positive some

end Shares

/-- The candidate with more to its loss. -/
def SiblingPair.plus (pair : SiblingPair α) (more : α) : SiblingPair α :=
  { pair with delta := pair.delta + more }

@[simp] theorem SiblingPair.plus_zero (pair : SiblingPair α) : pair.plus 0 = pair := by
  simp only [plus, add_zero]

theorem SiblingPair.plus_plus (pair : SiblingPair α) (more others : α) :
    (pair.plus more).plus others = pair.plus (more + others) := by
  simp only [plus, add_assoc]

namespace LatentTree

variable {tree node : LatentTree α} {weights : List (List α)} {row : List α} {first second : Nat}

/-- The total of a node if two of its substates are merged. -/
def merged (weights : List (List α)) (node : LatentTree α) (first second : Nat) : Except Fault α := do
  Model.mergedTotal (← fetch weights node.state) node.inside.values node.outside.values
    node.nodeTotal first second

/-- The weighted mean of the inside scores of two substates times the sum of their outside scores. -/
def pairProduct (node : LatentTree α) (row : List α) (first second : Nat) : α :=
  (shareOf (entry row first) (entry row second) * entry node.inside.values first +
      shareOf (entry row second) (entry row first) * entry node.inside.values second) *
    (entry node.outside.values first + entry node.outside.values second)

/-- A node with a total whose scores are not negative, and weights for its substates that are not zero
where it visits them. -/
structure Weighed (node : LatentTree α) (row : List α) : Prop where
  sized : row.length = node.substates
  outside_sized : node.outside.values.length = node.substates
  inside : ∀ s < node.substates, 0 ≤ entry node.inside.values s
  outside : ∀ s < node.substates, 0 ≤ entry node.outside.values s
  weights : ∀ s < node.substates, 0 ≤ entry row s
  visited : ∀ s < node.substates,
    0 < entry node.inside.values s * entry node.outside.values s → 0 < entry row s
  positive : 0 < node.nodeTotal

theorem pairProduct_comm (node : LatentTree α) (row : List α) (first second : Nat) :
    node.pairProduct row second first = node.pairProduct row first second := by
  rw [pairProduct, add_comm, add_comm (entry node.outside.values second), pairProduct]

namespace Weighed

variable (weighed : node.Weighed row) (firstBelow : first < node.substates)
  (secondBelow : second < node.substates)

include weighed firstBelow secondBelow

theorem pairProduct_nonneg : 0 ≤ node.pairProduct row first second := by
  have share := shareOf_nonneg (weighed.weights first firstBelow) (weighed.weights second secondBelow)
  have share' := shareOf_nonneg (weighed.weights second secondBelow) (weighed.weights first firstBelow)
  refine mul_nonneg (add_nonneg ?_ ?_) (add_nonneg ?_ ?_)
  · exact mul_nonneg share (weighed.inside first firstBelow)
  · exact mul_nonneg share' (weighed.inside second secondBelow)
  · exact weighed.outside first firstBelow
  · exact weighed.outside second secondBelow

/-- A visit to one of the two is enough, as it has given this one weight. -/
theorem pairProduct_pos
    (visit : 0 < entry node.inside.values first * entry node.outside.values first) :
    0 < node.pairProduct row first second := by
  have weight := weighed.visited first firstBelow visit
  have others := weighed.weights second secondBelow
  have inside := (weighed.inside first firstBelow).lt_of_ne' (left_ne_zero_of_mul visit.ne')
  have outside := (weighed.outside first firstBelow).lt_of_ne' (right_ne_zero_of_mul visit.ne')
  refine mul_pos (add_pos_of_pos_of_nonneg ?_ ?_) (add_pos_of_pos_of_nonneg outside ?_)
  · exact mul_pos (shareOf_pos weight others) inside
  · exact mul_nonneg (shareOf_nonneg others weight.le) (weighed.inside second secondBelow)
  · exact weighed.outside second secondBelow

theorem merged_eq (found : weights[node.state]? = some row) :
    node.merged weights first second = .ok (node.nodeTotal
      - entry node.inside.values first * entry node.outside.values first
      - entry node.inside.values second * entry node.outside.values second
      + node.pairProduct row first second) := by
  rw [merged, fetch_eq_ok_iff.mpr found, ok_bind]
  exact Model.mergedTotal_eq weighed.sized rfl weighed.outside_sized firstBelow secondBelow

/-- Whether or not the node visits other substates than the two, something is left of its total. -/
theorem merged_pos (found : weights[node.state]? = some row) (different : first ≠ second) :
    ∃ total, node.merged weights first second = .ok total ∧ 0 < total := by
  let product (s : Nat) : α := entry node.inside.values s * entry node.outside.values s
  have total : node.nodeTotal = ∑ s ∈ range node.substates \ {first, second}, product s +
      (product first + product second) := by
    rw [nodeTotal_eq weighed.outside_sized, ← sum_sdiff (pair_subset_range firstBelow secondBelow),
      sum_pair different]
  have others : 0 ≤ ∑ s ∈ range node.substates \ {first, second}, product s := by
    refine sum_nonneg fun s member => ?_
    have below := mem_range.mp (mem_sdiff.mp member).1
    exact mul_nonneg (weighed.inside s below) (weighed.outside s below)
  have positive := weighed.positive
  refine ⟨_, weighed.merged_eq firstBelow secondBelow found, ?_⟩
  rw [sub_sub, total, add_sub_cancel_right]
  rcases others.eq_or_lt with none | some
  · rw [total, ← none, zero_add] at positive
    rw [← none, zero_add]
    rcases lt_or_ge 0 (product first) with visit | unvisited
    · exact weighed.pairProduct_pos firstBelow secondBelow visit
    · have visit : 0 < product second := by linarith only [positive, unvisited]
      rw [← pairProduct_comm]
      exact weighed.pairProduct_pos secondBelow firstBelow visit
  · exact add_pos_of_pos_of_nonneg some (weighed.pairProduct_nonneg firstBelow secondBelow)

end Weighed

/-- What a node says about a pair of its category. -/
def loss (weights : List (List α)) (node : LatentTree α) (pair : SiblingPair α) : α :=
  match node.merged weights pair.first pair.second with
  | .ok total => Scalar.log (total / node.nodeTotal)
  | .error _ => 0

/-- Whether the mass of a scored tree is a likelihood. -/
def isLikely (tree : LatentTree α) : Bool :=
  match tree.mass with
  | .ok mass => hasLikelihood mass
  | .error _ => false

/-- A node that no guard passes over: it has a total, and keeps some of it whichever siblings of its
category are merged. -/
structure Counts (model : Model α) (weights : List (List α)) (node : LatentTree α) : Prop where
  known : node.state < model.substates.length
  positive : 0 < node.nodeTotal
  merged : ∀ ancestry, model.grammar.ancestry[node.state]? = some ancestry →
    ∀ pair ∈ ancestry.pairs, ∃ total, node.merged weights pair.1 pair.2 = .ok total ∧ 0 < total

end LatentTree

omit [ExactScalar α] in
theorem Training.Pass.ofSweep_eq_ok_iff {β : Type} {forest after : Forest α}
    {sweep : Forest.Sweep α β} {result : β} :
    Training.Pass.ofSweep forest sweep = (after, .ok result) ↔
      { forest with trees := sweep.trees } = after ∧ sweep.fault = none ∧ sweep.result = result := by
  rw [Training.Pass.ofSweep, Prod.mk.injEq]
  cases sweep.fault with
  | none => simp
  | some fault => simp

theorem Forest.sweep_computes {β : Type}
    {step : Nat → LatentTree α → β → Except Fault (LatentTree α × β)}
    (scores : ∀ index tree result next, step index tree result = .ok next →
      tree.computeBoth model = .ok next.1)
    {index : Nat} {trees : List (LatentTree α)} {start : β}
    (sound : (sweep step index trees start).fault = none) :
    List.Forall₂ (fun tree scored => tree.computeBoth model = .ok scored) trees
      (sweep step index trees start).trees := by
  induction trees generalizing index start with
  | nil => exact .nil
  | cons tree rest ih =>
    unfold sweep at sound ⊢
    cases done : step index tree start with
    | error fault => simp [done] at sound
    | ok next =>
      simp only [done] at sound ⊢
      exact .cons (scores index tree start next done) (ih sound)

namespace Model

variable {forest weighed : Forest α} {weights : List (List α)} {tree scored node : LatentTree α}
  {row : List α}

section Weighing

variable (rules : model.grammar.rules.Fits model.substates) (lexicon : model.lexicon.Consistent)
  (same : model.lexicon.substates = model.substates)
  (fits : ∀ tree ∈ forest.trees, tree.Fits model.substates ∧ tree.substates = 1)
  (weighing : Training.Pass.ofSweep forest (model.mergeWeights forest) = (weighed, .ok weights))

include rules lexicon same fits weighing

theorem mergeWeights_result :
    List.Forall₂ (fun tree scored => tree.computeBoth model = .ok scored) forest.trees
      weighed.trees ∧
    List.Forall₂ HasSize weights model.substates ∧ ∀ state s, tally weights state s =
      ((forest.scored model).map fun tree => tree.expectedVisits model state s).sum := by
  obtain ⟨rfl, sound, rfl⟩ := Training.Pass.ofSweep_eq_ok_iff.mp weighing
  cases start : model.substates.mapM (fill · (0 : α)) with
  | error fault => simp [mergeWeights, start] at sound
  | ok zeros =>
    have grows := mergeWeights_grows rules lexicon same fits start
    refine ⟨?_, (grows 0 0).2.kept, (mergeWeights_tally rules lexicon same fits start).2⟩
    simp only [mergeWeights, start] at sound ⊢
    exact Forest.sweep_computes (fun _ _ _ _ done => weighTree_scores done) sound

/-- What a node of a tree with a likelihood visits has got weight, be it from this node only. -/
theorem mergeWeights_weigh (nonneg : model.Nonneg) (member : tree ∈ forest.trees)
    (scores : tree.ScoredAs model scored) (heavy : 0 < entry scored.inside.values 0)
    (present : node ∈ scored.subtrees) :
    ∃ row, weights[node.state]? = some row ∧ node.Weighed row := by
  obtain ⟨-, sized, tallied⟩ := mergeWeights_result rules lexicon same fits weighing
  have nodeFits := scores.fits.of_mem present
  obtain ⟨row, found, rowSized⟩ := exists_of_forall₂ sized nodeFits.substates_eq
  have entries (s : Nat) : entry row s =
      ((forest.scored model).map fun tree => tree.expectedVisits model node.state s).sum := by
    rw [← tallied, tally, found, Option.getD_some]
  have visits (s : Nat) : ∀ visits ∈ (forest.scored model).map fun tree =>
      tree.expectedVisits model node.state s, 0 ≤ visits :=
    List.forall_mem_map.mpr fun tree _ => tree.expectedVisits_nonneg nonneg node.state s
  have scored : tree ∈ forest.scored model :=
    List.mem_filter.mpr ⟨member, decide_eq_true (scores.positive_iff.mp heavy)⟩
  obtain ⟨inside, outside⟩ := scores.exact.entries_nonneg nonneg present
  refine ⟨row, found, rowSized, nodeFits.top.outside, inside, outside, fun s _ => ?_,
    fun s _ visited => ?_, ?_⟩
  · rw [entries]
    exact List.sum_nonneg (visits s)
  · have visit : 0 < node.visit s := by
      rw [LatentTree.visit, ← LatentTree.entry_mul_nodeScale]
      exact mul_pos visited node.nodeScale_pos
    rw [entries]
    exact (scores.expectedVisits_pos nonneg heavy present visit).trans_le
      (List.single_le_sum (visits s) _ (List.mem_map_of_mem scored))
  · exact scores.exact.nodeTotal_pos ((scores.exact.mass_pos_iff scores.single).mp heavy) scores.fits
      present

end Weighing

/-- Pairs of siblings are pairs of different substates, whose node keeps something when they are
merged. -/
theorem counts_of_weighed
    (ancestry : List.Forall₂ Ancestry.Fits model.grammar.ancestry model.substates)
    (fits : node.Fits model.substates) (found : weights[node.state]? = some row)
    (weighed : node.Weighed row) : node.Counts model weights where
  known := (List.getElem?_eq_some_iff.mp fits.substates_eq).1
  positive := weighed.positive
  merged family here pair member := by
    have size : family.size = node.substates := relation_of_forall₂ ancestry here fits.substates_eq
    obtain ⟨first, second⟩ := Ancestry.pairs_inside member
    exact weighed.merged_pos (size ▸ first) (size ▸ second) found
      (family.pairs_disjoint.distinct pair member)

variable {candidates : List (SiblingPair α)}

/-- Candidates that are pairs of siblings, and not of the root. -/
def AllOffered (model : Model α) (candidates : List (SiblingPair α)) : Prop :=
  ∀ pair ∈ candidates, model.Offers pair.state pair.first pair.second

theorem AllOffered.plus (offered : model.AllOffered candidates) (more : SiblingPair α → α) :
    model.AllOffered (candidates.map fun pair => pair.plus (more pair)) :=
  List.forall_mem_map.mpr offered

/-- Every candidate gets what the node says about it, unless it is of another category. -/
theorem addLosses_counts (counts : node.Counts model weights)
    (offered : model.AllOffered candidates) :
    addLosses model.substates.length weights candidates node =
      .ok (candidates.map fun pair =>
        pair.plus (if pair.state = node.state then node.loss weights pair else 0)) := by
  have each (pair : SiblingPair α) (member : pair ∈ candidates) :
      addLoss weights node node.nodeTotal pair =
        .ok (pair.plus (if pair.state = node.state then node.loss weights pair else 0)) := by
    by_cases same : pair.state = node.state
    · obtain ⟨-, family, found, neighbours⟩ := offered pair member
      obtain ⟨total, reckoned, positive⟩ := counts.merged family (same ▸ found)
        (pair.first, pair.second) (Ancestry.mem_pairs_iff.mpr neighbours)
      obtain ⟨row, here, merges⟩ := bind_eq_ok_iff.mp reckoned
      rw [addLoss_eq counts.positive (fetch_eq_ok_iff.mp here) same merges, SiblingPair.judged,
        if_pos (div_pos positive counts.positive), if_pos same, LatentTree.loss, reckoned]
      rfl
    · rw [addLoss, if_pos (by simpa using same), if_neg same, SiblingPair.plus_zero]
      rfl
  unfold addLosses
  exact (if_neg counts.positive.not_ge).trans
    ((if_neg counts.known.not_ge).trans (mapM_eq_map each))

theorem foldlM_addLosses_counts {nodes : List (LatentTree α)}
    (counts : ∀ node ∈ nodes, node.Counts model weights)
    (offered : model.AllOffered candidates) :
    nodes.foldlM (addLosses model.substates.length weights) candidates =
      .ok (candidates.map fun pair => pair.plus
        (nodes.map fun node => if pair.state = node.state then node.loss weights pair else 0).sum) := by
  induction nodes generalizing candidates with
  | nil =>
    simp only [List.map_nil, List.sum_nil, SiblingPair.plus_zero, List.map_id']
    rfl
  | cons node rest ih =>
    obtain ⟨here, later⟩ := List.forall_mem_cons.mp counts
    rw [List.foldlM_cons, addLosses_counts here offered, ok_bind, ih later (offered.plus _),
      List.map_map]
    simp only [Function.comp_def, SiblingPair.plus_plus, List.map_cons, List.sum_cons]
    rfl

/-- What a whole tree says about a pair. -/
def treeLoss (weights : List (List α)) (tree : LatentTree α) (pair : SiblingPair α) : α :=
  if tree.isLikely then
    (tree.subtrees.map fun node => if pair.state = node.state then node.loss weights pair else 0).sum
  else 0

/-- A scored tree with a mass, whose nodes all count if this is a likelihood. -/
structure AllCount (model : Model α) (weights : List (List α)) (scored : LatentTree α) : Prop where
  massed : ∃ mass, scored.mass = .ok mass
  nodes : scored.isLikely → ∀ node ∈ scored.subtrees, node.Counts model weights

theorem judgeTree_counts (computed : tree.computeBoth model = .ok scored)
    (all : AllCount model weights scored)
    (offered : model.AllOffered candidates) :
    model.judgeTree weights tree candidates =
      .ok (scored, candidates.map fun pair => pair.plus (treeLoss weights scored pair)) := by
  obtain ⟨mass, massed⟩ := all.massed
  have likely : scored.isLikely = LatentTree.hasLikelihood mass := by
    rw [LatentTree.isLikely, massed]
  simp only [judgeTree, computed, massed, ok_bind, treeLoss, likely]
  by_cases weighs : LatentTree.hasLikelihood mass
  · simp only [weighs, if_true, foldlM_addLosses_counts (all.nodes (likely.trans weighs)) offered,
      ok_bind]
    rfl
  · simp only [weighs, if_false, SiblingPair.plus_zero, List.map_id', Bool.false_eq_true]
    rfl

theorem sweep_counts {trees results : List (LatentTree α)}
    (computed : List.Forall₂ (fun tree scored => tree.computeBoth model = .ok scored) trees results)
    (all : ∀ scored ∈ results, AllCount model weights scored)
    (offered : model.AllOffered candidates) (index : Nat) :
    Forest.sweep (fun _ => model.judgeTree weights) index trees candidates =
      ⟨results, candidates.map fun pair => pair.plus
        (results.map fun scored => treeLoss weights scored pair).sum, none⟩ := by
  induction computed generalizing candidates index with
  | nil => simp [Forest.sweep]
  | cons here _ ih =>
    obtain ⟨first, later⟩ := List.forall_mem_cons.mp all
    simp only [Forest.sweep, judgeTree_counts here first offered, ih later (offered.plus _),
      List.map_map, Function.comp_def, SiblingPair.plus_plus, List.map_cons, List.sum_cons]
    rfl

end Model

/-- The nodes of a category in all trees that have a likelihood. -/
def Forest.likelyNodes (forest : Forest α) (state : Nat) : List (LatentTree α) :=
  ((forest.trees.filter LatentTree.isLikely).flatMap LatentTree.subtrees).filter (state = ·.state)

theorem Forest.sum_treeLoss (forest : Forest α) (weights : List (List α)) (pair : SiblingPair α) :
    (forest.trees.map fun tree => Model.treeLoss weights tree pair).sum =
      ((forest.likelyNodes pair.state).map (·.loss weights pair)).sum := by
  unfold likelyNodes
  rw [sum_map_filter]
  induction forest.trees with
  | nil => rfl
  | cons tree rest ih =>
    by_cases likely : tree.isLikely
    · rw [List.map_cons, List.sum_cons, ih, List.filter_cons_of_pos likely, List.flatMap_cons,
        List.map_append, List.sum_append, Model.treeLoss, if_pos likely]
    · rw [List.map_cons, List.sum_cons, ih, List.filter_cons_of_neg likely, Model.treeLoss,
        if_neg likely, zero_add]

namespace Model

variable {forest weighed : Forest α} {weights : List (List α)}

theorem mergeCandidates_offered (model : Model α) : model.AllOffered model.mergeCandidates :=
  fun _ member => place_mem_mergeCandidates_iff.mp (List.mem_map_of_mem member)

theorem delta_of_mem_mergeCandidates {pair : SiblingPair α}
    (member : pair ∈ model.mergeCandidates) : pair.delta = 0 := by
  obtain ⟨⟨family, state⟩, -, offered⟩ := List.mem_flatMap.mp member
  dsimp only at offered
  split at offered
  · exact absurd offered List.not_mem_nil
  · obtain ⟨siblings, -, rfl⟩ := List.mem_map.mp offered
    rfl

/-- Losses are sums over nodes if none of these is passed over. -/
theorem mergeLosses_counts {trees results : List (LatentTree α)} {substates : List Nat}
    (ancestry : List.Forall₂ Ancestry.Fits model.grammar.ancestry model.substates)
    (computed : List.Forall₂ (fun tree scored => tree.computeBoth model = .ok scored) trees results)
    (all : ∀ scored ∈ results, AllCount model weights scored) :
    Training.Pass.ofSweep ⟨trees, substates⟩ (model.mergeLosses ⟨trees, substates⟩ weights) =
      (⟨results, substates⟩, .ok (model.mergeCandidates.map fun pair => { pair with
        delta := ((Forest.likelyNodes ⟨results, substates⟩ pair.state).map (·.loss weights pair)).sum
      })) := by
  have known : model.mergeCandidates.all (·.state < model.substates.length) := by
    refine List.all_eq_true.mpr fun pair member => ?_
    obtain ⟨-, family, found, -⟩ := model.mergeCandidates_offered pair member
    rw [decide_eq_true_eq, ← ancestry.length_eq]
    exact (List.getElem?_eq_some_iff.mp found).1
  unfold mergeLosses
  simp only [known, if_true, sweep_counts computed all model.mergeCandidates_offered]
  refine Training.Pass.ofSweep_eq_ok_iff.mpr ⟨rfl, rfl, List.map_congr_left fun pair member => ?_⟩
  have sum := Forest.sum_treeLoss ⟨results, substates⟩ weights pair
  dsimp only at sum
  rw [SiblingPair.plus, delta_of_mem_mergeCandidates member, zero_add, sum]

end Model

end LatentGrammar
