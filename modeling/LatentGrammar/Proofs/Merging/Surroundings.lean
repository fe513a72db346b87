import LatentGrammar.Proofs.Merging.Lumping
import LatentGrammar.Proofs.Scoring.Outside

namespace LatentGrammar

open Finset

variable {α : Type} [ExactScalar α] {substates images : List Nat} {mappings : List (List Nat)}
  {weights : List (List α)}

/-- No substate is merged with another one. -/
def Alone (mapping : List Nat) : Prop :=
  ∀ (s t image : Nat), mapping[s]? = some image → mapping[t]? = some image → s = t

section Alone

variable {mapping : List Nat} {old new n image : Nat}

theorem Alone.fiber_eq (alone : Alone mapping) (found : mapping[n]? = some image) :
    fiber mapping image = {n} := by
  ext m
  rw [mem_fiber, mem_singleton]
  constructor
  · exact fun here => alone m n image here found
  · rintro rfl
    exact found

theorem weightOf_single {state : Nat} (single : fiber (mapOf mappings state) image = {n}) :
    weightOf mappings weights state n = 1 := by
  have found := mem_fiber.mp (single ▸ mem_singleton_self n)
  have whole := sum_weightOf weights (List.mem_of_getElem? found)
  rwa [single, sum_singleton] at whole

/-- Where substates stay alone, sums over classes are multiplied substate by substate. -/
theorem MapsInto.sum_fibers_alone (maps : MapsInto mapping old new) (alone : Alone mapping)
    (f g : Nat → α) :
    ∑ image ∈ range new, (∑ n ∈ fiber mapping image, f n) * ∑ n ∈ fiber mapping image, g n =
      ∑ n ∈ range old, f n * g n := by
  rw [← maps.sum_fibers]
  refine sum_congr rfl fun image _ => ?_
  rcases (fiber mapping image).eq_empty_or_nonempty with empty | ⟨n, member⟩
  · simp [empty]
  · simp [alone.fiber_eq (mem_fiber.mp member)]

/-- A sum of sums over classes, each times the value of the class, is one over all substates. -/
theorem MapsInto.sum_fibers_mul (maps : MapsInto mapping old new) {f f' : Nat → α}
    (same : SameValues mapping f f') (g : Nat → α) :
    ∑ image ∈ range new, (∑ n ∈ fiber mapping image, g n) * f' image =
      ∑ n ∈ range old, g n * f n := by
  rw [← maps.sum_fibers]
  refine sum_congr rfl fun image _ => ?_
  rw [sum_mul]
  exact sum_congr rfl fun n member => by rw [same n image (mem_fiber.mp member)]

end Alone

/-- What passes from above a rule to the substates `mine` of one of its children, if the parents stay
alone and what comes from the sister does not tell members of a class apart. -/
theorem sum_gathered {up sister : List Nat} {parents newParents sisters newSisters : Nat}
    (inUp : MapsInto up parents newParents) (alone : Alone up)
    (inSister : MapsInto sister sisters newSisters) {weight : Nat → α}
    (weighted : ∀ i image, up[i]? = some image → weight i = 1) (mine : Finset Nat)
    (cells : Nat → Nat → Nat → α) {new : Nat → Nat → α}
    (each : ∀ i' < newParents, ∀ y' < newSisters, new i' y' =
      ∑ i ∈ fiber up i', weight i * ∑ x ∈ mine, ∑ y ∈ fiber sister y', cells i x y)
    {o o' g g' : Nat → α} (above : ∀ i' < newParents, o' i' = ∑ i ∈ fiber up i', o i)
    (beside : SameValues sister g g') :
    ∑ i' ∈ range newParents, ∑ y' ∈ range newSisters, new i' y' * o' i' * g' y' =
      ∑ x ∈ mine, ∑ i ∈ range parents, ∑ y ∈ range sisters, cells i x y * o i * g y := by
  let row (i : Nat) : α := ∑ x ∈ mine, ∑ y ∈ range sisters, cells i x y * g y
  have gathered (i' : Nat) (parent : i' < newParents) :
      ∑ y' ∈ range newSisters, new i' y' * o' i' * g' y' =
        (∑ i ∈ fiber up i', row i) * ∑ i ∈ fiber up i', o i := by
    rw [← above i' parent]
    calc ∑ y' ∈ range newSisters, new i' y' * o' i' * g' y'
      _ = (∑ y' ∈ range newSisters,
            (∑ y ∈ fiber sister y', ∑ i ∈ fiber up i', ∑ x ∈ mine, cells i x y) * g' y') * o' i' := by
          rw [sum_mul]
          refine sum_congr rfl fun y' inside => ?_
          have collected : new i' y' =
              ∑ y ∈ fiber sister y', ∑ i ∈ fiber up i', ∑ x ∈ mine, cells i x y := by
            rw [each i' parent y' (mem_range.mp inside), sum_comm]
            refine sum_congr rfl fun i member => ?_
            rw [weighted i i' (mem_fiber.mp member), one_mul, sum_comm]
          rw [collected]
          ring
      _ = (∑ i ∈ fiber up i', row i) * o' i' := by
          rw [inSister.sum_fibers_mul beside]
          congr 1
          simp only [row, sum_mul]
          rw [sum_comm]
          exact sum_congr rfl fun i _ => sum_comm
  rw [sum_congr rfl fun i' member => gathered i' (mem_range.mp member),
    inUp.sum_fibers_alone alone, sum_comm]
  refine sum_congr rfl fun i _ => ?_
  simp only [row, sum_mul]
  exact sum_congr rfl fun x _ => sum_congr rfl fun y _ => by ring

/-- A coarser model in which only substates of one category have been merged. -/
structure MergesOnly (coarse model : Model α) (mappings : List (List Nat)) (weights : List (List α))
    (category : Nat) : Prop where
  maps : Maps mappings model.substates coarse.substates
  cells : coarse.grammar.rules.MergedFrom model.grammar.rules mappings weights coarse.substates
  apart : ∀ state, state ≠ category → Alone (mapOf mappings state)

namespace LatentTree

variable {model coarse : Model α} {tree other node left right child : LatentTree α}
  {scores : NodeScores α} {category state position index before : Nat}

/-- The number of nodes of a category. -/
def occurrences (category : Nat) (tree : LatentTree α) : Nat :=
  tree.subtrees.countP fun node => node.state == category

omit [ExactScalar α] in
theorem occurrences_unary :
    (unary state scores child).occurrences category =
      child.occurrences category + if state = category then 1 else 0 := by
  simp [occurrences, subtrees, List.countP_cons, LatentTree.state]

omit [ExactScalar α] in
theorem occurrences_binary :
    (binary state scores left right).occurrences category =
      left.occurrences category + right.occurrences category +
        if state = category then 1 else 0 := by
  simp [occurrences, subtrees, List.countP_cons, List.countP_append, LatentTree.state]

omit [ExactScalar α] in
@[simp] theorem occurrences_skeleton (tree : LatentTree α) (category : Nat) :
    tree.skeleton.occurrences category = tree.occurrences category := by
  simp [occurrences, subtrees_skeleton, List.countP_map, Function.comp_def]

omit [ExactScalar α] in
theorem occurrences_eq_zero_iff :
    tree.occurrences category = 0 ↔ ∀ node ∈ tree.subtrees, node.state ≠ category := by
  simp [occurrences, List.countP_eq_zero]

omit [ExactScalar α] in
theorem At.occurrences_pos (there : tree.At index before node) : 0 < tree.occurrences node.state :=
  List.countP_pos_iff.mpr ⟨node, List.mem_of_getElem? there.found, by simp⟩

omit [ExactScalar α] in
theorem only_below {count : Nat} (positive : 0 < count)
    (once : count + (if state = category then 1 else 0) = 1) : state ≠ category ∧ count = 1 := by
  split at once
  · omega
  · exact ⟨‹_›, once⟩

/-- At this node the inside score of a merged substate is the average over its members. -/
def Averaged (mappings : List (List Nat)) (weights : List (List α)) (node other : LatentTree α) :
    Prop :=
  ∀ image < other.substates, other.inside.score image =
    ∑ n ∈ fiber (mapOf mappings node.state) image,
      weightOf mappings weights node.state n * node.inside.score n

/-- At this node the outside score of a merged substate is the sum over its members. -/
def Gathered (mappings : List (List Nat)) (node other : LatentTree α) : Prop :=
  ∀ image < other.substates, other.outside.score image =
    ∑ n ∈ fiber (mapOf mappings node.state) image, node.outside.score n

namespace Rescored

/-- Where the category does not occur, inside scores stay. -/
theorem lumped_of_absent (rescored : Rescored coarse model mappings position tree other)
    (merges : MergesOnly coarse model mappings weights category)
    (absent : tree.occurrences category = 0) : Lumped mappings tree other := by
  refine lumped_top (rescored.lumped merges.cells merges.maps fun node member key parent => ?_)
  have alone := merges.apart node.state (occurrences_eq_zero_iff.mp absent node member)
  intro one two image here there _ _
  rw [Production.parentMap, parent] at here there
  rw [alone one two image here there]

/-- At a node of the category that has no other one below, the rule averages over the members of a
class, and nothing else changes. -/
theorem averaged (rescored : Rescored coarse model mappings position tree other)
    (merges : MergesOnly coarse model mappings weights tree.state)
    (inner : tree.isPreterminal = false) (once : tree.occurrences tree.state = 1) :
    Averaged mappings weights tree other := by
  have small (n image : Nat) (member : n ∈ fiber (mapOf mappings tree.state) image) :=
    (below_of_mapped merges.maps rescored.fits rescored.others rescored.state_eq
      (mem_fiber.mp member)).1
  cases tree with
  | preterminal => exact Bool.noConfusion inner
  | unary state scores child =>
    obtain ⟨newScores, newChild, rfl, inside⟩ := rescored.unary_cases
    have absent : child.occurrences state = 0 := by
      simpa [occurrences_unary, LatentTree.state] using once
    intro image below
    have newDimensions := rescored.others.dimensions_unary
    have here := rescored.newInside.2 image below
    rw [inside.state_eq] at newDimensions here
    have row := merges.cells.average merges.maps rescored.fits.dimensions_unary newDimensions below
      (inside.lumped_of_absent merges absent) (single_same (fun _ => (1 : α)))
    simp only [sum_range_one, mul_one] at row
    refine here.trans (row.trans (sum_congr rfl fun n member => ?_))
    exact congrArg _ (rescored.inside.2 n (small n image member)).symm
  | binary state scores left right =>
    obtain ⟨newScores, newLeft, newRight, rfl, inLeft, inRight⟩ := rescored.binary_cases
    obtain ⟨leftAbsent, rightAbsent⟩ : left.occurrences state = 0 ∧ right.occurrences state = 0 := by
      simpa [occurrences_binary, LatentTree.state] using once
    intro image below
    have newDimensions := rescored.others.dimensions_binary
    have here := rescored.newInside.2.2 image below
    rw [inLeft.state_eq, inRight.state_eq] at newDimensions here
    have row := merges.cells.average merges.maps rescored.fits.dimensions_binary newDimensions below
      (inLeft.lumped_of_absent merges leftAbsent) (inRight.lumped_of_absent merges rightAbsent)
    refine here.trans (row.trans (sum_congr rfl fun n member => ?_))
    exact congrArg _ (rescored.inside.2.2 n (small n image member)).symm

theorem gathered_only {newScores : NodeScores α} {inner : LatentTree α}
    (rescored : Rescored coarse model mappings position (unary state scores child)
      (unary state newScores inner))
    (merges : MergesOnly coarse model mappings weights category) (different : state ≠ category)
    (same : inner.state = child.state) (outside : (unary state scores child).OutsideExact model.grammar)
    (newOutside : (unary state newScores inner).OutsideExact coarse.grammar)
    (top : Gathered mappings (unary state scores child) (unary state newScores inner)) :
    Gathered mappings child inner := by
  have alone := merges.apart state different
  have newDimensions := rescored.others.dimensions_unary
  rw [same] at newDimensions
  obtain ⟨_, _, _, again, up, down, only⟩ :=
    Production.dimensions_images merges.maps rescored.fits.dimensions_unary
  cases newDimensions.symm.trans again
  intro image below
  have passed := sum_gathered up alone only
    (fun i i' found => weightOf_single (alone.fiber_eq found))
    (fiber (mapOf mappings child.state) image)
    (fun i x y => model.grammar.rules.cell (.unary state child.state) i x y)
    (fun i' parent y' beside => merges.cells _ _ _ _ newDimensions i' parent image below y' beside)
    top (single_same fun _ => (1 : α))
  simp only [sum_range_one, mul_one] at passed
  have here := newOutside.2 image below
  rw [same] at here
  refine here.trans (passed.trans (sum_congr rfl fun n member => ?_))
  exact (outside.2 n (down.lt_of_mem_fiber member)).symm

section Binary

variable {newScores : NodeScores α} {newLeft newRight : LatentTree α}

theorem gathered_left
    (rescored : Rescored coarse model mappings position (binary state scores left right)
      (binary state newScores newLeft newRight))
    (merges : MergesOnly coarse model mappings weights category) (different : state ≠ category)
    (sameLeft : newLeft.state = left.state) (sameRight : newRight.state = right.state)
    (sister : Lumped mappings right newRight)
    (outside : (binary state scores left right).OutsideExact model.grammar)
    (newOutside : (binary state newScores newLeft newRight).OutsideExact coarse.grammar)
    (top : Gathered mappings (binary state scores left right)
      (binary state newScores newLeft newRight)) : Gathered mappings left newLeft := by
  have alone := merges.apart state different
  have newDimensions := rescored.others.dimensions_binary
  rw [sameLeft, sameRight] at newDimensions
  obtain ⟨_, _, _, again, up, down, beside⟩ :=
    Production.dimensions_images merges.maps rescored.fits.dimensions_binary
  cases newDimensions.symm.trans again
  intro image below
  have passed := sum_gathered up alone beside
    (fun i i' found => weightOf_single (alone.fiber_eq found))
    (fiber (mapOf mappings left.state) image)
    (fun i x y => model.grammar.rules.cell (.binary state left.state right.state) i x y)
    (fun i' parent y' other => merges.cells _ _ _ _ newDimensions i' parent image below y' other)
    top sister
  have here := newOutside.2.2.1 image below
  rw [sameLeft, sameRight] at here
  refine here.trans (passed.trans (sum_congr rfl fun n member => ?_))
  exact (outside.2.2.1 n (down.lt_of_mem_fiber member)).symm

theorem gathered_right
    (rescored : Rescored coarse model mappings position (binary state scores left right)
      (binary state newScores newLeft newRight))
    (merges : MergesOnly coarse model mappings weights category) (different : state ≠ category)
    (sameLeft : newLeft.state = left.state) (sameRight : newRight.state = right.state)
    (sister : Lumped mappings left newLeft)
    (outside : (binary state scores left right).OutsideExact model.grammar)
    (newOutside : (binary state newScores newLeft newRight).OutsideExact coarse.grammar)
    (top : Gathered mappings (binary state scores left right)
      (binary state newScores newLeft newRight)) : Gathered mappings right newRight := by
  have alone := merges.apart state different
  have newDimensions := rescored.others.dimensions_binary
  rw [sameLeft, sameRight] at newDimensions
  obtain ⟨_, _, _, again, up, beside, down⟩ :=
    Production.dimensions_images merges.maps rescored.fits.dimensions_binary
  cases newDimensions.symm.trans again
  intro image below
  have passed := sum_gathered up alone beside
    (fun i i' found => weightOf_single (alone.fiber_eq found))
    (fiber (mapOf mappings right.state) image)
    (fun i x y => model.grammar.rules.cell (.binary state left.state right.state) i y x)
    (fun i' parent y' other => Eq.trans
      (merges.cells _ _ _ _ newDimensions i' parent y' other image below)
      (sum_congr rfl fun i _ => congrArg _ sum_comm)) top sister
  have here := newOutside.2.2.2 image below
  rw [sameLeft, sameRight] at here
  refine here.trans (passed.trans (sum_congr rfl fun n member => ?_))
  exact (outside.2.2.2 n (down.lt_of_mem_fiber member)).symm

end Binary

/-- On the way down to the only node of the category, outside scores are added up. -/
theorem gathered (rescored : Rescored coarse model mappings position tree other)
    (there : tree.At index before node) (merges : MergesOnly coarse model mappings weights node.state)
    (once : tree.occurrences node.state = 1) (outside : tree.OutsideExact model.grammar)
    (newOutside : other.OutsideExact coarse.grammar) (top : Gathered mappings tree other) :
    ∃ result, other.At index before result ∧
      Rescored coarse model mappings (position + before) node result ∧
      Gathered mappings node result ∧ node.occurrences node.state = 1 := by
  induction there generalizing other position with
  | top tree => exact ⟨other, .top other, rescored, top, once⟩
  | @only state scores child node index before there ih =>
    obtain ⟨newScores, inner, rfl, inside⟩ := rescored.unary_cases
    obtain ⟨different, once⟩ := only_below there.occurrences_pos (occurrences_unary.symm.trans once)
    obtain ⟨result, here, rest⟩ := ih inside merges once outside.1 newOutside.1
      (rescored.gathered_only merges different inside.state_eq outside newOutside top)
    exact ⟨result, .only state newScores here, rest⟩
  | @left state scores left node right index before there ih =>
    obtain ⟨newScores, newLeft, newRight, rfl, inLeft, inRight⟩ := rescored.binary_cases
    have positive := there.occurrences_pos
    obtain ⟨different, once⟩ :=
      only_below (Nat.lt_of_lt_of_le positive (by omega)) (occurrences_binary.symm.trans once)
    have sister := inRight.lumped_of_absent merges (by omega)
    obtain ⟨result, here, rest⟩ := ih inLeft merges (by omega) outside.1 newOutside.1
      (rescored.gathered_left merges different inLeft.state_eq inRight.state_eq sister outside
        newOutside top)
    exact ⟨result, .left state newScores newRight here, rest⟩
  | @right state scores left right node index before there ih =>
    obtain ⟨newScores, newLeft, newRight, rfl, inLeft, inRight⟩ := rescored.binary_cases
    have positive := there.occurrences_pos
    obtain ⟨different, once⟩ :=
      only_below (Nat.lt_of_lt_of_le positive (by omega)) (occurrences_binary.symm.trans once)
    have sister := inLeft.lumped_of_absent merges (by omega)
    obtain ⟨result, here, rest⟩ := ih inRight merges (by omega) outside.2.1 newOutside.2.1
      (rescored.gathered_right merges different inLeft.state_eq inRight.state_eq sister outside
        newOutside top)
    rw [Nat.add_assoc] at rest
    rw [← length_subtrees_of_skeleton inLeft.skeleton, ← wordCount_eq_of_skeleton inLeft.skeleton]
    rw [← wordCount_eq_of_skeleton inLeft.skeleton] at rest
    exact ⟨result, .right state newScores newLeft here, rest⟩

end Rescored

end LatentTree

end LatentGrammar
