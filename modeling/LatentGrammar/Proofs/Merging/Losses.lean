import LatentGrammar.Proofs.Merging.Selection
import LatentGrammar.Proofs.Merging.Surroundings
import LatentGrammar.Proofs.Counting.RuleSums

/-! Losses of merges, in exact arithmetic. What merging a pair would make of the weight of a tree is
reckoned from the scores at single nodes. Where the category of the pair has one node only, and that
one is not a preterminal, the reckoning is exact: the ratio that goes into the loss is that of the
masses of the tree with the merged grammar and with the old one, wherever vectors were rescaled. -/

namespace LatentGrammar

open Finset

variable {α : Type} [ExactScalar α] {mapping : List Nat} {pairs : List (Nat × Nat)}
  {size image m n first second : Nat}

theorem pair_subset_range (firstBelow : first < size) (secondBelow : second < size) :
    ({first, second} : Finset Nat) ⊆ range size :=
  insert_subset (mem_range.mpr firstBelow) (singleton_subset_iff.mpr (mem_range.mpr secondBelow))

namespace Collapses

theorem eq_range (collapses : Collapses mapping size []) : mapping = List.range size := by
  have lowest (s : Nat) : Lowest [] s := fun t together => by
    rcases together with rfl | absent | absent
    · exact le_rfl
    · exact absurd absent List.not_mem_nil
    · exact absurd absent List.not_mem_nil
  have sorted : mapping.Pairwise (· < ·) := by
    rw [List.pairwise_iff_getElem]
    intro i j below below' less
    exact collapses.increasing i j _ _ (List.getElem?_eq_getElem below)
      (List.getElem?_eq_getElem below') (lowest i) (lowest j) less
  refine sorted.eq_of_mem_iff List.pairwise_lt_range fun image => ?_
  rw [collapses.maps.onto, List.mem_range, List.length_nil, Nat.sub_zero]

theorem alone (collapses : Collapses mapping size []) : Alone mapping := by
  intro s t image here there
  rcases (collapses.kernel s t image image here there).mp rfl with same | absent | absent
  · exact same
  · exact absurd absent List.not_mem_nil
  · exact absurd absent List.not_mem_nil

theorem mem_fiber_iff (collapses : Collapses mapping size pairs)
    (inside : ∀ pair ∈ pairs, pair.1 < size ∧ pair.2 < size) (found : mapping[n]? = some image) :
    m ∈ fiber mapping image ↔ Together pairs m n := by
  rw [mem_fiber]
  constructor
  · exact fun here => (collapses.kernel m n image image here found).mp rfl
  · intro together
    have here := List.getElem?_eq_getElem (collapses.lt_of_together inside found together)
    rw [here, (collapses.kernel m n _ image here found).mpr together]

variable (collapses : Collapses mapping size [(first, second)]) (firstBelow : first < size)
  (secondBelow : second < size)

include collapses firstBelow secondBelow

theorem fiber_eq (found : mapping[n]? = some image) :
    fiber mapping image = if n = first ∨ n = second then {first, second} else {n} := by
  ext m
  rw [collapses.mem_fiber_iff (by simpa using ⟨firstBelow, secondBelow⟩) found]
  simp only [Together, List.mem_singleton, Prod.mk.injEq]
  split
  · simp only [mem_insert, mem_singleton]
    omega
  · simp only [mem_singleton]
    omega

/-- Sums over classes, multiplied class by class, where only a pair shares a class. -/
theorem sum_products (different : first ≠ second) (weight f g : Nat → α)
    (whole : ∀ n < size, n ≠ first → n ≠ second → weight n = 1) :
    ∑ image ∈ range (size - 1),
        (∑ n ∈ fiber mapping image, weight n * f n) * ∑ n ∈ fiber mapping image, g n =
      ∑ n ∈ range size, f n * g n - f first * g first - f second * g second +
        (weight first * f first + weight second * f second) * (g first + g second) := by
  let total (n : Nat) : α := if n = first ∨ n = second then g first + g second else g n
  have classes : SameValues mapping total fun image => ∑ n ∈ fiber mapping image, g n := by
    intro n image found
    dsimp only [total]
    rw [collapses.fiber_eq firstBelow secondBelow found]
    split
    · rw [sum_pair different]
    · rw [sum_singleton]
  have changed : ∑ n ∈ range size, (weight n * f n * total n - f n * g n) =
      ∑ n ∈ {first, second}, (weight n * f n * total n - f n * g n) := by
    refine (sum_subset (pair_subset_range firstBelow secondBelow) fun n member outside => ?_).symm
    simp only [mem_insert, mem_singleton, not_or] at outside
    rw [whole n (mem_range.mp member) outside.1 outside.2]
    simp [total, outside.1, outside.2]
  rw [sum_sub_distrib, sum_pair different] at changed
  have all := collapses.maps.mapsInto.sum_fibers_mul classes fun n => weight n * f n
  rw [List.length_singleton] at all
  rw [all]
  simp only [total, true_or, or_true, if_true] at changed
  linear_combination changed

end Collapses

/-- The share of the first of two weights, which is a half if they have none. -/
def shareOf (weight other : α) : α :=
  if 0 < weight + other then weight / (weight + other) else 1 / 2

theorem weightOf_pair {mappings : List (List Nat)} {weights : List (List α)} {row : List α}
    {state : Nat} (found : weights[state]? = some row) (different : first ≠ second)
    (together : fiber (mapOf mappings state) image = {first, second}) :
    weightOf mappings weights state first = shareOf (entry row first) (entry row second) ∧
      weightOf mappings weights state second = shareOf (entry row second) (entry row first) := by
  have one := mem_fiber.mp (together ▸ mem_insert_self first {second})
  have two := mem_fiber.mp (together ▸ mem_insert_of_mem (mem_singleton_self second))
  have pair : #({first, second} : Finset Nat) = 2 := card_pair different
  simp only [weightOf, found, Option.getD_some, entry_relativeWeights row one,
    entry_relativeWeights row two, together, sum_pair different, pair, shareOf,
    add_comm (entry row second), Nat.cast_ofNat, and_self]

theorem half_eq : (0.5 : α) = 1 / 2 := by norm_num

namespace LatentTree

/-- What a node adds up before it compares: the products of the entries of its two vectors. -/
def nodeTotal (node : LatentTree α) : α :=
  Scalar.sum ((node.inside.values.zip node.outside.values).map fun (i, o) => i * o)

/-- The scale of the products at a node. -/
def nodeScale (node : LatentTree α) : α :=
  Scalar.scaleFactor (node.inside.scale + node.outside.scale)

theorem nodeScale_pos (node : LatentTree α) : 0 < node.nodeScale := ExactScalar.scaleFactor_pos _

theorem entry_mul_nodeScale (node : LatentTree α) (s t : Nat) :
    entry node.inside.values s * entry node.outside.values t * node.nodeScale =
      node.inside.score s * node.outside.score t := by
  rw [nodeScale, ExactScalar.scaleFactor_add, ScaledVector.score_eq_entry,
    ScaledVector.score_eq_entry]
  ring

theorem nodeTotal_eq {node : LatentTree α} (sized : node.outside.values.length = node.substates) :
    node.nodeTotal =
      ∑ s ∈ range node.substates, entry node.inside.values s * entry node.outside.values s := by
  have products : ((node.inside.values.zip node.outside.values).map fun (i, o) => i * o) =
      (List.range node.substates).map fun s =>
        entry node.inside.values s * entry node.outside.values s := by
    apply List.ext_getElem
    · simp [substates, sized]
    · intro s inZip inRange
      have within : s < node.inside.values.length := by simpa [LatentTree.substates] using inRange
      have withinOutside : s < node.outside.values.length := sized ▸ within
      simp [entry, within, withinOutside]
  rw [nodeTotal, Scalar.sum_eq, products, ← List.sum_toFinset _ List.nodup_range,
    List.toFinset_range]

theorem nodeTotal_mul {node : LatentTree α} (sized : node.outside.values.length = node.substates) :
    node.nodeTotal * node.nodeScale =
      ∑ s ∈ range node.substates, node.inside.score s * node.outside.score s := by
  rw [nodeTotal_eq sized, sum_mul]
  exact sum_congr rfl fun s _ => node.entry_mul_nodeScale s s

end LatentTree

/-- A candidate after a node that reckons with a ratio of scores. -/
def SiblingPair.judged (pair : SiblingPair α) (ratio : α) : SiblingPair α :=
  if 0 < ratio then { pair with delta := pair.delta + Scalar.log ratio } else pair

@[simp] theorem SiblingPair.state_judged (pair : SiblingPair α) (ratio : α) :
    (pair.judged ratio).state = pair.state := by
  unfold judged
  split
  · rfl
  · rfl

namespace Model

theorem mergedTotal_eq {row inside outside : List α} {total : α} (sized : row.length = size)
    (insideSized : inside.length = size) (outsideSized : outside.length = size)
    (firstBelow : first < size) (secondBelow : second < size) :
    mergedTotal row inside outside total first second =
      .ok (total - entry inside first * entry outside first
        - entry inside second * entry outside second +
        (shareOf (entry row first) (entry row second) * entry inside first +
          shareOf (entry row second) (entry row first) * entry inside second) *
        (entry outside first + entry outside second)) := by
  have known {values : List α} (length : values.length = size) {n : Nat} (below : n < size) :
      fetch values n = .ok (entry values n) :=
    RuleBlock.fetch_eq_entry (length ▸ below)
  simp only [mergedTotal, known sized firstBelow, known sized secondBelow,
    known insideSized firstBelow, known insideSized secondBelow, known outsideSized firstBelow,
    known outsideSized secondBelow, ok_bind, shareOf, add_comm (entry row second)]
  split
  · rfl
  · rw [half_eq]
    rfl

variable {model : Model α} {weights : List (List α)} {row : List α} {mappings : List (List Nat)}
  {substates : List Nat} {node result : LatentTree α} {candidates : List (SiblingPair α)}
  {candidate changed : SiblingPair α} {states i : Nat}

/-- Averages of inside scores times sums of outside scores are what is reckoned, in the scale of the
node. -/
theorem mergedTotal_mul (fits : node.Fits substates) (found : weights[node.state]? = some row)
    (sized : row.length = node.substates)
    (collapses : Collapses (mapOf mappings node.state) node.substates [(first, second)])
    (different : first ≠ second) (firstBelow : first < node.substates)
    (secondBelow : second < node.substates) (count : result.substates = node.substates - 1)
    (averaged : LatentTree.Averaged mappings weights node result)
    (gathered : LatentTree.Gathered mappings node result) :
    ∃ merged, mergedTotal row node.inside.values node.outside.values node.nodeTotal first second =
        .ok merged ∧
      merged * node.nodeScale =
        ∑ image ∈ range result.substates, result.inside.score image * result.outside.score image := by
  let weight := weightOf mappings weights node.state
  have mapped {n : Nat} (below : n < node.substates) :
      ∃ image, (mapOf mappings node.state)[n]? = some image :=
    ⟨_, List.getElem?_eq_getElem (collapses.maps.length_eq ▸ below)⟩
  have whole (n : Nat) (below : n < node.substates) (one : n ≠ first) (two : n ≠ second) :
      weight n = 1 := by
    obtain ⟨image, here⟩ := mapped below
    have alone := collapses.fiber_eq firstBelow secondBelow here
    rw [if_neg (by simp [one, two])] at alone
    exact weightOf_single alone
  obtain ⟨image, here⟩ := mapped firstBelow
  have together := collapses.fiber_eq firstBelow secondBelow here
  rw [if_pos (.inl rfl)] at together
  obtain ⟨firstShare, secondShare⟩ := weightOf_pair found different together
  have products := collapses.sum_products firstBelow secondBelow different weight
    node.inside.score node.outside.score whole
  rw [← count] at products
  refine ⟨_, mergedTotal_eq sized rfl fits.top.outside firstBelow secondBelow, ?_⟩
  rw [sum_congr rfl fun image member => by
    rw [averaged image (mem_range.mp member), gathered image (mem_range.mp member)], products,
    ← firstShare, ← secondShare]
  have each := node.entry_mul_nodeScale
  linear_combination LatentTree.nodeTotal_mul fits.top.outside - each first first - each second second
    + weight first * (each first first + each first second)
    + weight second * (each second first + each second second)

theorem addLoss_eq {total merged : α} (positive : 0 < total)
    (found : weights[node.state]? = some row) (same : candidate.state = node.state)
    (reckoned : mergedTotal row node.inside.values node.outside.values total candidate.first
      candidate.second = .ok merged) :
    addLoss weights node total candidate = .ok (candidate.judged (merged / total)) := by
  simp only [addLoss, same, bne_self_eq_false, Bool.false_eq_true, if_false,
    fetch_eq_ok_iff.mpr found, ok_bind, reckoned, SiblingPair.judged,
    div_pos_iff_of_pos_right positive]
  split
  · rfl
  · rfl

/-- A node changes candidates of its own category only, each as it reckons for it. -/
theorem addLosses_getElem? (found : candidates[i]? = some candidate) :
    Delivers Any (fun next : List (SiblingPair α) =>
        (candidate.state ≠ node.state → next[i]? = some candidate) ∧
        (0 < node.nodeTotal → ∀ changed,
          addLoss weights node node.nodeTotal candidate = .ok changed → next[i]? = some changed))
      (addLosses states weights candidates node) := by
  refine Delivers.ite (fun none => ⟨fun _ => found, fun some => absurd none some.not_ge⟩) fun _ => ?_
  refine Delivers.ite (fun _ => trivial) fun _ => ?_
  have each (pair : SiblingPair α) : Delivers Any
      (addLoss weights node node.nodeTotal pair = .ok ·) (addLoss weights node node.nodeTotal pair) :=
    (delivers_any _).mono_ok fun _ done _ => done
  refine (Delivers.mapM fun pair _ => each pair).mono fun next all => ?_
  obtain ⟨value, there, done⟩ := exists_of_forall₂ all.flip found
  refine ⟨fun other => ?_, fun _ changed computed => ?_⟩
  · rw [addLoss, if_pos (by simpa using other)] at done
    rw [there, ← Except.ok.inj done]
  · rw [there, ← Except.ok.inj (computed.symm.trans done)]

theorem foldlM_addLosses_keeps {nodes : List (LatentTree α)}
    (others : ∀ node ∈ nodes, candidate.state ≠ node.state)
    (found : candidates[i]? = some candidate) :
    Delivers Any (fun next : List (SiblingPair α) => next[i]? = some candidate)
      (nodes.foldlM (addLosses states weights) candidates) :=
  Delivers.foldlM found fun _ node member here =>
    (addLosses_getElem? here).mono fun _ next => next.1 (others node member)

/-- Over a whole tree, a candidate is changed by the only node of its category. -/
theorem foldlM_addLosses_once {tree : LatentTree α} (member : node ∈ tree.subtrees)
    (once : tree.occurrences node.state = 1) (positive : 0 < node.nodeTotal)
    (found : candidates[i]? = some candidate) (same : candidate.state = node.state)
    (kept : changed.state = candidate.state)
    (step : addLoss weights node node.nodeTotal candidate = .ok changed) :
    Delivers Any (fun next : List (SiblingPair α) => next[i]? = some changed)
      (tree.subtrees.foldlM (addLosses states weights) candidates) := by
  obtain ⟨before, after, nodes⟩ := List.append_of_mem member
  have single : before.countP (fun other => other.state == node.state) = 0 ∧
      after.countP (fun other => other.state == node.state) = 0 := by
    rw [LatentTree.occurrences, nodes, List.countP_append, List.countP_cons_of_pos (by simp)] at once
    omega
  have apart {others : List (LatentTree α)}
      (none : others.countP (fun other => other.state == node.state) = 0) :
      ∀ other ∈ others, node.state ≠ other.state := by
    intro other present equal
    exact List.countP_eq_zero.mp none other present (by simp [equal])
  rw [nodes, List.foldlM_append]
  refine (foldlM_addLosses_keeps (same ▸ apart single.1) found).bind fun next here => ?_
  rw [List.foldlM_cons]
  refine (addLosses_getElem? here).bind fun next there => ?_
  exact foldlM_addLosses_keeps (kept ▸ same ▸ apart single.2) (there.2 positive changed step)

end Model

section Trees

variable {model coarse : Model α} {weights : List (List α)} {mappings : List (List Nat)}
  {substates : List Nat} {pair : SiblingPair α} {tree other node : LatentTree α} {state : Nat}

omit [ExactScalar α] in
theorem pairsOf_singleton (state : Nat) (pair : SiblingPair α) :
    SiblingPair.pairsOf state [pair] =
      if pair.state = state then [(pair.first, pair.second)] else [] := by
  by_cases same : pair.state = state
  · simp [SiblingPair.pairsOf, same]
  · simp [SiblingPair.pairsOf, same]

namespace Relabels

omit [ExactScalar α] in
theorem mapOf_collapses {selected : List (SiblingPair α)}
    (relabels : Relabels mappings substates selected) (found : substates[state]? = some size) :
    Collapses (mapOf mappings state) size (SiblingPair.pairsOf state selected) := by
  obtain ⟨mapping, here, collapses⟩ := relabels.of_size found
  rwa [mapOf, here, Option.getD_some]

variable (relabels : Relabels mappings substates [pair])

include relabels

omit [ExactScalar α] in
theorem other_collapses (different : state ≠ pair.state) (found : substates[state]? = some size) :
    Collapses (mapOf mappings state) size [] := by
  have collapses := relabels.mapOf_collapses found
  rwa [pairsOf_singleton, if_neg different.symm] at collapses

omit [ExactScalar α] in
theorem alone (different : state ≠ pair.state) : Alone (mapOf mappings state) := by
  cases found : substates[state]? with
  | some size => exact (relabels.other_collapses different found).alone
  | none =>
    have beyond : mappings[state]? = none := by
      rw [List.getElem?_eq_none_iff, relabels.length_eq]
      exact List.getElem?_eq_none_iff.mp found
    intro s t image here
    simp [mapOf, beyond] at here

end Relabels

namespace LatentTree

/-- Words that score as before, in a tree without preterminals of the merged category. -/
theorem SameEmissions.of_kept {old new : Lexicon α}
    (relabels : Relabels mappings substates [pair]) (fits : tree.Fits substates)
    (inner : ∀ node ∈ tree.subtrees, node.state = pair.state → node.isPreterminal = false)
    (kept : ∀ index before state word scores, tree.At index before (.preterminal state word scores) →
      new.score word state before = old.score word state before) :
    tree.SameEmissions mappings old new 0 := by
  intro index before state word scores there
  have member := List.mem_of_getElem? there.found
  have different : state ≠ pair.state := fun same => Bool.noConfusion (inner _ member same)
  have unchanged := (relabels.other_collapses different (fits.of_mem member).substates_eq).eq_range
  intro n image found
  obtain ⟨below, same⟩ := List.getElem?_eq_some_iff.mp found
  obtain rfl : n = image := by simpa [unchanged] using same
  rw [Nat.zero_add, Lexicon.emission, Lexicon.emission, kept index before state word scores there]

theorem gathered_top (alone : Alone (mapOf mappings tree.state))
    (maps : MapsOnto (mapOf mappings tree.state) tree.substates other.substates)
    (top : ∀ s < tree.substates, tree.outside.score s = 1)
    (newTop : ∀ s < other.substates, other.outside.score s = 1) : Gathered mappings tree other := by
  intro image below
  obtain ⟨n, found⟩ := List.getElem?_of_mem ((maps.onto image).mpr below)
  have known : n < tree.substates := by
    rw [← maps.length_eq]
    exact (List.getElem?_eq_some_iff.mp found).1
  rw [alone.fiber_eq found, sum_singleton, top n known, newTop image below]

/-- The weight of a tree with a merged pair can be told from the scores at the only node of its
category before the merge. -/
theorem Exact.reckoned (exact : tree.Exact model) (newExact : other.Exact coarse)
    (fits : tree.Fits model.substates) (others : other.Fits coarse.substates)
    (skeleton : other.skeleton = tree.skeleton)
    (emissions : tree.SameEmissions mappings model.lexicon coarse.lexicon 0)
    (relabels : Relabels mappings model.substates [pair])
    (sizes : coarse.substates = remaining model.substates [pair])
    (cells : coarse.grammar.rules.MergedFrom model.grammar.rules mappings weights coarse.substates)
    (single : tree.substates = 1) (different : pair.first ≠ pair.second)
    (inside : ∀ size, model.substates[pair.state]? = some size →
      pair.first < size ∧ pair.second < size)
    (weighted : List.Forall₂ HasSize weights model.substates)
    {index before : Nat} (there : tree.At index before node) (category : node.state = pair.state)
    (inner : node.isPreterminal = false) (once : tree.occurrences pair.state = 1) :
    other.substates = 1 ∧ ∃ row merged, weights[pair.state]? = some row ∧
      Model.mergedTotal row node.inside.values node.outside.values node.nodeTotal pair.first
        pair.second = .ok merged ∧
      merged * node.nodeScale = other.totalWeight coarse := by
  have topDifferent : tree.state ≠ pair.state := by
    intro same
    have known := fits.substates_eq
    rw [same, single] at known
    have below := inside 1 known
    omega
  have left (node result : LatentTree α) (nodeFits : node.Fits model.substates)
      (resultFits : result.Fits coarse.substates) (same : result.state = node.state) :
      result.substates = node.substates - (SiblingPair.pairsOf node.state [pair]).length := by
    have known := resultFits.substates_eq
    rw [same, sizes, remaining_getElem? nodeFits.substates_eq] at known
    exact (Option.some.inj known).symm
  have rescored : Rescored coarse model mappings 0 tree other :=
    ⟨fits, others, skeleton, emissions, exact.inside, newExact.inside⟩
  have merges : MergesOnly coarse model mappings weights node.state :=
    ⟨sizes ▸ relabels.onto.maps, cells, fun s other => relabels.alone (category ▸ other)⟩
  have top : Gathered mappings tree other := by
    obtain ⟨new, -, known, maps⟩ := relabels.onto.of_size fits.substates_eq
    have count := others.substates_eq
    rw [rescored.state_eq, sizes, known] at count
    obtain rfl := Option.some.inj count
    exact gathered_top (relabels.alone topDifferent) maps exact.top newExact.top
  obtain ⟨result, here, below, gathered, onceBelow⟩ := rescored.gathered there merges
    (category ▸ once) exact.outside newExact.outside top
  have averaged := below.averaged merges inner onceBelow
  have collapses := relabels.mapOf_collapses below.fits.substates_eq
  have count := left node result below.fits below.others below.state_eq
  rw [pairsOf_singleton, if_pos category.symm] at collapses count
  have known := below.fits.substates_eq
  obtain ⟨row, found, sized⟩ := exists_of_forall₂ weighted known
  obtain ⟨firstBelow, secondBelow⟩ := inside _ (category ▸ known)
  obtain ⟨merged, reckoned, total⟩ := Model.mergedTotal_mul below.fits found sized collapses different
    firstBelow secondBelow count averaged gathered
  refine ⟨?_, row, merged, category ▸ found, reckoned, total.trans (newExact.sum_scores here)⟩
  have size := left tree other fits others rescored.state_eq
  rwa [pairsOf_singleton, if_neg topDifferent.symm, single] at size

end LatentTree

end Trees

namespace Model

variable {model : Model α} {weights : List (List α)} {categories root state : Nat}
  {tree : LatentTree α}

/-- The only node of a category in a tree of positive weight, once the tree is scored. -/
theorem exists_node {scored : LatentTree α} (exact : scored.Exact model)
    (heavy : 0 < scored.totalWeight model) (fits : scored.Fits model.substates)
    (alike : scored.Alike tree) (once : tree.occurrences state = 1)
    (inner : ∀ node ∈ tree.subtrees, node.state = state → node.isPreterminal = false) :
    scored.occurrences state = 1 ∧ ∃ index before node, scored.At index before node ∧
      node.state = state ∧ node.isPreterminal = false ∧ 0 < node.nodeTotal ∧
      node.nodeTotal * node.nodeScale = scored.totalWeight model := by
  have again : scored.occurrences state = 1 := by
    simpa [once] using congrArg (LatentTree.occurrences state) alike.skeleton_eq
  obtain ⟨node, member, category⟩ := List.countP_pos_iff.mp (again ▸ Nat.one_pos : 0 < _)
  obtain ⟨index, found⟩ := List.getElem?_of_mem member
  have there := LatentTree.at_of_getElem? found
  have total : node.nodeTotal * node.nodeScale = scored.totalWeight model :=
    (LatentTree.nodeTotal_mul (fits.of_mem member).top.outside).trans (exact.sum_scores there)
  obtain ⟨result, here, same, -⟩ := LatentTree.subtree_of_skeleton alike.skeleton_eq.symm found
  have category : node.state = state := by simpa using category
  refine ⟨again, index, _, node, there, category, ?_, ?_, total⟩
  · rw [← LatentTree.isPreterminal_skeleton, ← same, LatentTree.isPreterminal_skeleton]
    exact inner result (List.mem_of_getElem? here)
      ((LatentTree.state_eq_of_skeleton same).trans category)
  · rw [← total] at heavy
    exact (mul_pos_iff_of_pos_right node.nodeScale_pos).mp heavy

/-- A tree with a single node of a category is judged by what is reckoned at this node. -/
theorem judgeTree_once {scored node : LatentTree α} {mass newTotal : α} {row : List α}
    {candidates : List (SiblingPair α)} (fits : scored.Fits model.substates)
    (weighted : List.Forall₂ HasSize weights model.substates)
    (success : tree.computeBoth model = .ok scored) (massed : scored.mass = .ok mass)
    (positive : 0 < mass) (member : node ∈ scored.subtrees)
    (once : scored.occurrences node.state = 1) (seen : 0 < node.nodeTotal)
    (found : weights[node.state]? = some row)
    (reckoned : mergedTotal row node.inside.values node.outside.values node.nodeTotal first second =
      .ok newTotal)
    (fit : ∀ candidate ∈ candidates, candidate.Fits model.substates root) :
    ∃ judged, model.judgeTree weights tree candidates = .ok (scored, judged) ∧
      ∀ (i : Nat) (candidate : SiblingPair α), candidates[i]? = some candidate →
        candidate.place = (node.state, first, second) →
        judged[i]? = some (candidate.judged (newTotal / node.nodeTotal)) := by
  have folds : Delivers Never (fun judged : List (SiblingPair α) =>
      ∀ candidate ∈ judged, candidate.Fits model.substates root)
      (scored.subtrees.foldlM (addLosses model.substates.length weights) candidates) :=
    Delivers.foldlM fit fun next other present kept =>
      addLosses_delivers weighted (fits.of_mem present) kept
  obtain ⟨judged, folded, -⟩ := delivers_never_iff.mp folds
  refine ⟨judged, ?_, fun i candidate here place => ?_⟩
  · have likely : LatentTree.hasLikelihood mass = true := by
      simp [LatentTree.hasLikelihood, positive, Scalar.isFinite]
    rw [judgeTree, success, ok_bind, massed, ok_bind, if_pos likely, folded]
    rfl
  · obtain ⟨category, pair⟩ := Prod.mk.inj place
    obtain ⟨rfl, rfl⟩ := Prod.mk.inj pair
    exact (foldlM_addLosses_once member once seen here category (candidate.state_judged _)
      (addLoss_eq seen found category reckoned)).of_ok folded

/-- The loss of a merge is exact where a category occurs once. Take any pair of siblings of a category
that is not the root, any weights, and any tree of positive mass in which just one node, not a
preterminal, is of this category. With the grammar that has only this pair merged, and words that
score as before, the mass of the tree changes by the ratio that is reckoned at this node, whatever
scales the vectors have; judging the tree adds the logarithm of this ratio to the pair's delta if the
new mass is positive, and nothing otherwise. -/
theorem merge_loss_exact {pair : SiblingPair α} (consistent : model.Consistent categories root)
    (weighted : List.Forall₂ HasSize weights model.substates)
    (offered : model.Offers pair.state pair.first pair.second) (fits : tree.Fits model.substates)
    (single : tree.substates = 1) (positive : 0 < tree.totalWeight model)
    (once : tree.occurrences pair.state = 1)
    (inner : ∀ node ∈ tree.subtrees, node.state = pair.state → node.isPreterminal = false) :
    ∃ scored mass node row, tree.computeBoth model = .ok scored ∧ scored.mass = .ok mass ∧
      0 < mass ∧ node ∈ scored.subtrees ∧ node.state = pair.state ∧
      weights[pair.state]? = some row ∧ 0 < node.nodeTotal ∧
      Delivers model.grammar.Cramped (fun mappings =>
          Relabels mappings model.substates [pair] ∧
          Delivers model.grammar.Cramped (fun merged =>
              merged.substates = remaining model.substates [pair] ∧
              ∀ (lexicon : Lexicon α) (other : LatentTree α), lexicon.Consistent →
                lexicon.substates = merged.substates → other.Fits merged.substates →
                other.skeleton = tree.skeleton →
                (∀ index before state word scores,
                  tree.At index before (.preterminal state word scores) →
                    lexicon.score word state before = model.lexicon.score word state before) →
                ∃ rescored newMass newTotal,
                  other.computeBoth ⟨merged, lexicon⟩ = .ok rescored ∧
                  rescored.mass = .ok newMass ∧
                  mergedTotal row node.inside.values node.outside.values node.nodeTotal pair.first
                    pair.second = .ok newTotal ∧
                  newTotal / node.nodeTotal =
                    newMass * Scalar.scaleFactor rescored.inside.scale /
                      (mass * Scalar.scaleFactor scored.inside.scale) ∧
                  ∀ candidates : List (SiblingPair α),
                    (∀ candidate ∈ candidates, candidate.Fits model.substates root) →
                    ∃ judged, model.judgeTree weights tree candidates = .ok (scored, judged) ∧
                      ∀ (i : Nat) (candidate : SiblingPair α), candidates[i]? = some candidate →
                        candidate.place = pair.place →
                        judged[i]? = some (candidate.judged
                          (newMass * Scalar.scaleFactor rescored.inside.scale /
                            (mass * Scalar.scaleFactor scored.inside.scale))))
            (model.grammar.merge mappings weights))
        (collapseMaps model.substates [pair]) := by
  obtain ⟨scored, success, alike, exact⟩ :=
    LatentTree.exists_computeBoth consistent.rules consistent.lexicon consistent.substates_eq fits
  have one : scored.substates = 1 := alike.substates_eq.trans single
  have heavy : 0 < scored.totalWeight model := by rwa [alike.totalWeight_eq]
  obtain ⟨again, index, before, node, there, category, isInner, someTotal, total⟩ :=
    exists_node exact heavy (alike.fits fits) alike once inner
  have member := List.mem_of_getElem? there.found
  obtain ⟨row, found, -⟩ :=
    exists_of_forall₂ weighted (category ▸ ((alike.fits fits).of_mem member).substates_eq)
  have massed := (exact.mass_pos_iff one).mpr heavy
  refine ⟨scored, _, node, row, success, LatentTree.mass_eq one, massed, member, category, found,
    someTotal, ?_⟩
  have chosen : ([pair].map SiblingPair.place).Subperm
      (model.mergeCandidates.map SiblingPair.place) :=
    List.singleton_subperm_iff.mpr (place_mem_mergeCandidates_iff.mpr offered)
  have pairFits := fits_of_places consistent chosen
  have inside := (pairFits pair (List.mem_singleton_self pair)).inside
  have disjoint (s : Nat) : DisjointPairs (SiblingPair.pairsOf s [pair]) :=
    SiblingPair.disjoint_of_subperm chosen (model.mergeCandidates_disjoint s)
  have different : pair.first ≠ pair.second :=
    (disjoint pair.state).distinct (pair.first, pair.second) (by simp [pairsOf_singleton])
  refine (collapseMaps_relabels disjoint (fun pair member => (pairFits pair member).inside)
    Grammar.cramped_of_large).mono fun mappings holds => ⟨holds.1, ?_⟩
  have relabels := holds.1
  refine (relabels.onto.merge_delivers consistent.rules consistent.ancestry
    weighted.length_eq.ge).mono_ok fun merged done result => ?_
  obtain ⟨sizes, -, known, -, newRules⟩ := result
  refine ⟨sizes, ?_⟩
  intro lexicon other newConsistent newSame others skeleton kept
  let coarse : Model α := ⟨merged, lexicon⟩
  rw [← sizes] at newRules
  obtain ⟨rescored, newSuccess, newAlike, newExact⟩ :=
    (LatentTree.exists_computeBoth newRules newConsistent newSame others :
      ∃ rescored, other.computeBoth coarse = .ok rescored ∧ _)
  have cells := Grammar.merge_cells consistent.rules known relabels.onto.maps weighted.length_eq.ge done
  rw [← sizes] at cells
  have emissions := (LatentTree.SameEmissions.of_kept relabels fits inner kept).of_alike alike
  have shape := newAlike.skeleton_eq.trans (skeleton.trans alike.skeleton_eq.symm)
  obtain ⟨newOne, row', newTotal, found', reckoned, newWeight⟩ := exact.reckoned newExact
    (alike.fits fits) (newAlike.fits others) shape emissions relabels sizes cells one different inside
    weighted there category isInner again
  obtain rfl := Option.some.inj (found.symm.trans found')
  have ratio : newTotal / node.nodeTotal =
      entry rescored.inside.values 0 * Scalar.scaleFactor rescored.inside.scale /
        (entry scored.inside.values 0 * Scalar.scaleFactor scored.inside.scale) := by
    rw [newExact.inside.mass_mul newOne, exact.inside.mass_mul one, ← newWeight, ← total,
      mul_div_mul_right _ _ node.nodeScale_pos.ne']
  refine ⟨rescored, _, newTotal, newSuccess, LatentTree.mass_eq newOne, reckoned, ratio,
    fun candidates fit => ?_⟩
  rw [← ratio, SiblingPair.place, ← category]
  exact judgeTree_once (alike.fits fits) weighted success (LatentTree.mass_eq one) massed member
    (category.symm ▸ again) someTotal (category.symm ▸ found) reckoned fit

/-- A model of phrases of two words, both with two substates. -/
def phraseModel : Model Rat where
  grammar :=
    { substates := [1, 2, 2]
      root := 0
      smoothing := .none
      threshold := 0
      ancestry := [⟨[some 0]⟩, ⟨[some 0, some 0]⟩, ⟨[some 0, some 0]⟩]
      rules := ⟨[(.unary 0 1, ⟨1, 2, 1, #[1 / 4, 3 / 4]⟩),
        (.binary 1 2 2, ⟨2, 2, 2, #[1 / 4, 1 / 4, 0, 1 / 2, 0, 1 / 2, 3 / 8, 1 / 8]⟩)]⟩ }
  lexicon :=
    { sampleModel.lexicon with
      substates := [1, 2, 2]
      ancestry := [⟨[some 0]⟩, ⟨[some 0, some 0]⟩, ⟨[some 0, some 0]⟩]
      tables :=
        { sampleModel.lexicon.tables with
          tagCounts := [[0], [0, 0], [2, 4]]
          wordCounts := [[], [], [("rain", [2, 1]), ("fell", [0, 3])]]
          unseenTagCounts := [[0], [0, 0], [0, 0]]
          unseenSignatureCounts := [[], [], []] } }

/-- The same words once phrases have a single substate. -/
def plainLexicon : Lexicon Rat :=
  { phraseModel.lexicon with
    substates := [1, 1, 2]
    ancestry := [⟨[some 0]⟩, ⟨[some 0]⟩, ⟨[some 0, some 0]⟩]
    tables :=
      { phraseModel.lexicon.tables with
        tagCounts := [[0], [0], [2, 4]]
        unseenTagCounts := [[0], [0], [0, 0]] } }

/-- The tree of a phrase with scores for some number of substates of it. -/
def phraseTree (phrases : Nat) : LatentTree Rat :=
  .unary 0 (blankScores 1)
    (.binary 1 (blankScores phrases) (.preterminal 2 "rain" (blankScores 2))
      (.preterminal 2 "fell" (blankScores 2)))

theorem phraseModel_consistent : phraseModel.Consistent 3 0 where
  categories_eq := rfl
  root_eq := rfl
  single := rfl
  positive := by decide
  ancestry := by simp [phraseModel, Ancestry.Fits, Ancestry.size]
  rules := by
    simp only [RuleTable.Fits, phraseModel, List.forall_mem_cons]
    exact ⟨⟨1, 2, 1, rfl, rfl, rfl, rfl, rfl⟩, ⟨2, 2, 2, rfl, rfl, rfl, rfl, rfl⟩, by simp⟩
  substates_eq := rfl
  lexiconRoot_eq := rfl
  ancestry_eq := rfl
  tables := by constructor <;> simp [phraseModel, sampleModel, HasSize, NameTable.Fits]

theorem phraseModel_room : HasRoom phraseModel.grammar.substates phraseModel.grammar.rules :=
  .cons rfl rfl (.cons rfl rfl (.nil (by decide)))

theorem phraseTree_fits {phrases : Nat} (room : phrases < Word.tableLimit) :
    (phraseTree phrases).Fits [1, phrases, 2] := by
  have sized (size state : Nat) (found : [1, phrases, 2][state]? = some size)
      (room : size < Word.tableLimit) : (blankScores size).Fits [1, phrases, 2] state :=
    ⟨by simpa [blankScores] using found, by simp [blankScores], by simpa [blankScores] using room⟩
  simp only [phraseTree, LatentTree.fits_unary, LatentTree.fits_binary, LatentTree.fits_preterminal]
  have words := sized 2 2 rfl (by decide)
  exact ⟨sized 1 0 rfl (by decide), sized phrases 1 rfl room, words, words⟩

theorem phraseModel_merge_loss_exact :
    ∃ mappings merged scored mass rescored newMass judged,
      collapseMaps [1, 2, 2] [(⟨1, 0, 1, 0⟩ : SiblingPair Rat)] = .ok mappings ∧
      phraseModel.grammar.merge mappings [[1], [1, 3], [1, 1]] = .ok merged ∧
      (phraseTree 2).computeBoth phraseModel = .ok scored ∧ scored.mass = .ok mass ∧
      (phraseTree 1).computeBoth ⟨merged, plainLexicon⟩ = .ok rescored ∧
      rescored.mass = .ok newMass ∧
      phraseModel.judgeTree [[1], [1, 3], [1, 1]] (phraseTree 2) phraseModel.mergeCandidates =
        .ok (scored, judged) ∧
      judged[0]? = some (SiblingPair.judged ⟨1, 0, 1, 0⟩
        (newMass * Scalar.scaleFactor rescored.inside.scale /
          (mass * Scalar.scaleFactor scored.inside.scale))) := by
  have weighted : List.Forall₂ HasSize [[(1 : Rat)], [1, 3], [1, 1]] phraseModel.substates :=
    .cons rfl (.cons rfl (.cons rfl .nil))
  let pair : SiblingPair Rat := ⟨1, 0, 1, 0⟩
  have offered : phraseModel.Offers pair.state pair.first pair.second :=
    place_mem_mergeCandidates_iff.mp (by decide)
  have inner : ∀ node ∈ (phraseTree 2).subtrees, node.state = 1 → node.isPreterminal = false := by
    simp [phraseTree, LatentTree.subtrees, LatentTree.state, LatentTree.isPreterminal]
  obtain ⟨scored, mass, node, row, success, massed, -, -, -, -, -, mapped⟩ :=
    merge_loss_exact phraseModel_consistent weighted offered (phraseTree_fits (by decide)) rfl
      (by decide +kernel) (by decide) inner
  have kept : ∀ index before state word scores,
      (phraseTree 2).At index before (.preterminal state word scores) →
        plainLexicon.score word state before = phraseModel.lexicon.score word state before := by
    intro index before state word scores there
    cases there with
    | only _ _ there =>
      cases there with
      | left _ _ _ there =>
        cases there with
        | top => decide +kernel
      | right _ _ _ there =>
        cases there with
        | top => decide +kernel
  have plain : plainLexicon.Consistent :=
    ⟨by simp [plainLexicon, Ancestry.Fits, Ancestry.size], by
      constructor <;> simp [plainLexicon, phraseModel, sampleModel, HasSize, NameTable.Fits]⟩
  cases numbered : collapseMaps phraseModel.substates [(⟨1, 0, 1, 0⟩ : SiblingPair Rat)] with
  | error fault =>
    rw [numbered] at mapped
    exact absurd phraseModel_room mapped.2
  | ok mappings =>
    rw [numbered] at mapped
    obtain ⟨-, delivers⟩ := mapped
    cases merging : phraseModel.grammar.merge mappings [[(1 : Rat)], [1, 3], [1, 1]] with
    | error fault =>
      rw [merging] at delivers
      exact absurd phraseModel_room delivers.2
    | ok merged =>
      rw [merging] at delivers
      obtain ⟨sizes, exact⟩ := delivers
      have left : merged.substates = [1, 1, 2] := sizes.trans (by decide)
      obtain ⟨rescored, newMass, newTotal, newSuccess, newMassed, -, -, judge⟩ :=
        exact plainLexicon (phraseTree 1) plain (left ▸ rfl) (left ▸ phraseTree_fits (by decide)) rfl
          kept
      obtain ⟨judged, done, delta⟩ := judge _ (mergeCandidates_fit phraseModel_consistent)
      exact ⟨mappings, merged, scored, mass, rescored, newMass, judged, numbered, merging, success,
        massed, newSuccess, newMassed, done, delta 0 _ rfl rfl⟩

end Model

end LatentGrammar
