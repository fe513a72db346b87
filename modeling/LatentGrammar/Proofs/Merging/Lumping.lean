import LatentGrammar.Proofs.Merging.Cells
import LatentGrammar.Proofs.Merging.Room
import LatentGrammar.Proofs.Scoring.Inside
import LatentGrammar.Proofs.Scoring.Skeleton

namespace LatentGrammar

open Finset

variable {α : Type} [ExactScalar α] {substates images : List Nat} {mappings : List (List Nat)}
  {weights : List (List α)}

/-- Values of new substates that are those of all their members. -/
def SameValues (mapping : List Nat) (f f' : Nat → α) : Prop :=
  ∀ (n image : Nat), mapping[n]? = some image → f' image = f n

omit [ExactScalar α] in
theorem single_same (f : Nat → α) : SameValues [0] f f := by
  intro n image found
  obtain ⟨below, same⟩ := List.getElem?_eq_some_iff.mp found
  obtain rfl : n = 0 := by simpa using below
  exact congrArg f same.symm

omit [ExactScalar α] in
theorem pair_same {f f' : Nat → α} {image other : Nat} (first : f' image = f 0)
    (second : f' other = f 1) : SameValues [image, other] f f' := by
  rintro (_ | _ | n) new found
  · cases found
    exact first
  · cases found
    exact second
  · simp at found

/-- A row that is summed class by class first. -/
theorem sum_classes {left right : List Nat} {lefts newLefts rights newRights : Nat}
    (inLeft : MapsInto left lefts newLefts) (inRight : MapsInto right rights newRights)
    (cells : Nat → Nat → α) {f f' g g' : Nat → α} (first : SameValues left f f')
    (second : SameValues right g g') :
    ∑ j' ∈ range newLefts, ∑ k' ∈ range newRights,
        (∑ j ∈ fiber left j', ∑ k ∈ fiber right k', cells j k) * f' j' * g' k' =
      ∑ j ∈ range lefts, ∑ k ∈ range rights, cells j k * f j * g k := by
  rw [← inLeft.sum_fibers]
  apply sum_congr rfl
  intro j' _
  calc ∑ k' ∈ range newRights,
          (∑ j ∈ fiber left j', ∑ k ∈ fiber right k', cells j k) * f' j' * g' k'
    _ = ∑ k' ∈ range newRights, ∑ j ∈ fiber left j', ∑ k ∈ fiber right k',
          cells j k * f j * g k := by
        refine sum_congr rfl fun k' _ => ?_
        simp only [sum_mul]
        refine sum_congr rfl fun j inJ => sum_congr rfl fun k inK => ?_
        rw [first j j' (mem_fiber.mp inJ), second k k' (mem_fiber.mp inK)]
    _ = ∑ j ∈ fiber left j', ∑ k ∈ range rights, cells j k * f j * g k := by
        rw [sum_comm]
        exact sum_congr rfl fun j _ => inRight.sum_fibers _

namespace RuleTable

variable {new old : RuleTable α} {key : Production}
  {parents lefts rights newParents newLefts newRights i i' : Nat}

/-- What a merged row makes of values for the children is the average of what the rows of its members
make of them. -/
theorem MergedFrom.average (merged : new.MergedFrom old mappings weights images)
    (maps : Maps mappings substates images)
    (dimensions : key.dimensions substates = .ok (parents, lefts, rights))
    (newDimensions : key.dimensions images = .ok (newParents, newLefts, newRights))
    (below : i' < newParents) {f f' g g' : Nat → α}
    (first : SameValues (key.leftMap mappings) f f')
    (second : SameValues (key.rightMap mappings) g g') :
    ∑ j' ∈ range newLefts, ∑ k' ∈ range newRights, new.cell key i' j' k' * f' j' * g' k' =
      ∑ i ∈ fiber (key.parentMap mappings) i', weightOf mappings weights key.parent i *
        ∑ j ∈ range lefts, ∑ k ∈ range rights, old.cell key i j k * f j * g k := by
  obtain ⟨_, _, _, again, -, inLeft, inRight⟩ := Production.dimensions_images maps dimensions
  cases newDimensions.symm.trans again
  have classes (i : Nat) := sum_classes inLeft inRight (old.cell key i) first second
  let weight := weightOf mappings weights key.parent
  let total (i j' k' : Nat) : α :=
    ∑ j ∈ fiber (key.leftMap mappings) j', ∑ k ∈ fiber (key.rightMap mappings) k', old.cell key i j k
  calc ∑ j' ∈ range newLefts, ∑ k' ∈ range newRights, new.cell key i' j' k' * f' j' * g' k'
    _ = ∑ j' ∈ range newLefts, ∑ k' ∈ range newRights, ∑ i ∈ fiber (key.parentMap mappings) i',
          weight i * (total i j' k' * f' j' * g' k') := by
        refine sum_congr rfl fun j' left => sum_congr rfl fun k' right => ?_
        rw [merged key _ _ _ newDimensions i' below j' (mem_range.mp left) k' (mem_range.mp right),
          sum_mul, sum_mul]
        exact sum_congr rfl fun i _ => by ring
    _ = ∑ i ∈ fiber (key.parentMap mappings) i', ∑ j' ∈ range newLefts, ∑ k' ∈ range newRights,
          weight i * (total i j' k' * f' j' * g' k') := by
        conv_rhs => rw [sum_comm]
        exact sum_congr rfl fun j' _ => sum_comm
    _ = _ := sum_congr rfl fun i _ => by simp only [← classes, mul_sum, weight, total]

/-- A rule does not tell apart parent substates with one image: for each pair of images of children,
their rows have the same total over the child substates with these images. -/
def Indistinct (table : RuleTable α) (mappings : List (List Nat)) (key : Production) : Prop :=
  ∀ (one two image : Nat), (key.parentMap mappings)[one]? = some image →
    (key.parentMap mappings)[two]? = some image → ∀ j' k',
      ∑ j ∈ fiber (key.leftMap mappings) j', ∑ k ∈ fiber (key.rightMap mappings) k',
          table.cell key one j k =
        ∑ j ∈ fiber (key.leftMap mappings) j', ∑ k ∈ fiber (key.rightMap mappings) k',
          table.cell key two j k

/-- An average of rows that do not differ is any one of them. -/
theorem MergedFrom.lumped (merged : new.MergedFrom old mappings weights images)
    (maps : Maps mappings substates images) (indistinct : old.Indistinct mappings key)
    (dimensions : key.dimensions substates = .ok (parents, lefts, rights))
    (newDimensions : key.dimensions images = .ok (newParents, newLefts, newRights))
    (found : (key.parentMap mappings)[i]? = some i') {f f' g g' : Nat → α}
    (first : SameValues (key.leftMap mappings) f f')
    (second : SameValues (key.rightMap mappings) g g') :
    ∑ j' ∈ range newLefts, ∑ k' ∈ range newRights, new.cell key i' j' k' * f' j' * g' k' =
      ∑ j ∈ range lefts, ∑ k ∈ range rights, old.cell key i j k * f j * g k := by
  obtain ⟨_, _, _, again, up, inLeft, inRight⟩ := Production.dimensions_images maps dimensions
  cases newDimensions.symm.trans again
  have member := List.mem_of_getElem? found
  have cell (j' k' : Nat) (left : j' < newLefts) (right : k' < newRights) :
      new.cell key i' j' k' =
        ∑ j ∈ fiber (key.leftMap mappings) j', ∑ k ∈ fiber (key.rightMap mappings) k',
          old.cell key i j k := by
    rw [merged key _ _ _ newDimensions i' (up.below _ member) j' left k' right]
    calc ∑ n ∈ fiber (key.parentMap mappings) i', weightOf mappings weights key.parent n *
            ∑ j ∈ fiber (key.leftMap mappings) j', ∑ k ∈ fiber (key.rightMap mappings) k',
              old.cell key n j k
      _ = ∑ n ∈ fiber (key.parentMap mappings) i', weightOf mappings weights key.parent n *
            ∑ j ∈ fiber (key.leftMap mappings) j', ∑ k ∈ fiber (key.rightMap mappings) k',
              old.cell key i j k :=
          sum_congr rfl fun n same => by rw [indistinct n i i' (mem_fiber.mp same) found]
      _ = _ := by rw [← sum_mul, Production.parentMap, sum_weightOf weights member, one_mul]
  rw [← sum_classes inLeft inRight (old.cell key i) first second]
  refine sum_congr rfl fun j' left => sum_congr rfl fun k' right => ?_
  rw [cell j' k' (mem_range.mp left) (mem_range.mp right)]

end RuleTable

namespace LatentTree

variable {model coarse : Model α} {tree other left right child : LatentTree α}
  {scores : NodeScores α} {state position : Nat}

/-- At this node every merged substate has the inside score of all its members. -/
def Lumped (mappings : List (List Nat)) (node other : LatentTree α) : Prop :=
  SameValues (mapOf mappings node.state) node.inside.score other.inside.score

/-- Every word of the tree has a score under a merged substate that it has under all its members. The
first word stands at `position`. -/
def SameEmissions (tree : LatentTree α) (mappings : List (List Nat)) (old new : Lexicon α)
    (position : Nat) : Prop :=
  ∀ (index before state : Nat) (word : String) (scores : NodeScores α),
    tree.At index before (.preterminal state word scores) →
      SameValues (mapOf mappings state) (old.emission word state (position + before))
        (new.emission word state (position + before))

omit [ExactScalar α] in
theorem head_subtrees (tree : LatentTree α) : ∃ rest, tree.subtrees = tree :: rest := by
  cases tree <;> exact ⟨_, rfl⟩

theorem lumped_top (all : List.Forall₂ (Lumped mappings) tree.subtrees other.subtrees) :
    Lumped mappings tree other := by
  obtain ⟨_, first⟩ := tree.head_subtrees
  obtain ⟨_, second⟩ := other.head_subtrees
  rw [first, second] at all
  exact (List.forall₂_cons.mp all).1

omit [ExactScalar α] in
theorem below_of_mapped (maps : Maps mappings substates images) (fits : tree.Fits substates)
    (others : other.Fits images) (same : other.state = tree.state) {s image : Nat}
    (found : (mapOf mappings tree.state)[s]? = some image) :
    s < tree.substates ∧ image < other.substates := by
  obtain ⟨new, -, known, into⟩ := maps.mapsInto fits.substates_eq
  have count := others.substates_eq
  rw [same, known] at count
  obtain rfl := Option.some.inj count
  constructor
  · rw [← into.length_eq]
    exact (List.getElem?_eq_some_iff.mp found).1
  · exact into.below image (List.mem_of_getElem? found)

/-- A tree scored inside by a model, and the tree of the same words and categories scored by a coarser
one under which words score as they did. -/
structure Rescored (coarse model : Model α) (mappings : List (List Nat)) (position : Nat)
    (tree other : LatentTree α) : Prop where
  fits : tree.Fits model.substates
  others : other.Fits coarse.substates
  skeleton : other.skeleton = tree.skeleton
  emissions : tree.SameEmissions mappings model.lexicon coarse.lexicon position
  inside : tree.InsideExact model position
  newInside : other.InsideExact coarse position

namespace Rescored

theorem state_eq (rescored : Rescored coarse model mappings position tree other) :
    other.state = tree.state :=
  state_eq_of_skeleton rescored.skeleton

theorem unary_cases
    (rescored : Rescored coarse model mappings position (unary state scores child) other) :
    ∃ newScores inner, other = unary state newScores inner ∧
      Rescored coarse model mappings position child inner := by
  obtain ⟨newScores, inner, rfl, alike⟩ := skeleton_eq_unary rescored.skeleton
  exact ⟨newScores, inner, rfl, (fits_unary.mp rescored.fits).2, (fits_unary.mp rescored.others).2,
    alike, fun _ _ _ _ _ there => rescored.emissions _ _ _ _ _ (.only _ _ there),
    rescored.inside.1, rescored.newInside.1⟩

theorem binary_cases
    (rescored : Rescored coarse model mappings position (binary state scores left right) other) :
    ∃ newScores newLeft newRight, other = binary state newScores newLeft newRight ∧
      Rescored coarse model mappings position left newLeft ∧
      Rescored coarse model mappings (position + left.wordCount) right newRight := by
  obtain ⟨newScores, newLeft, newRight, rfl, leftAlike, rightAlike⟩ :=
    skeleton_eq_binary rescored.skeleton
  obtain ⟨-, leftFits, rightFits⟩ := fits_binary.mp rescored.fits
  obtain ⟨-, newLeftFits, newRightFits⟩ := fits_binary.mp rescored.others
  have rightExact := rescored.newInside.2.1
  rw [wordCount_eq_of_skeleton leftAlike] at rightExact
  refine ⟨newScores, newLeft, newRight, rfl, ?_, ?_⟩
  · exact ⟨leftFits, newLeftFits, leftAlike,
      fun _ _ _ _ _ there => rescored.emissions _ _ _ _ _ (.left _ _ _ there),
      rescored.inside.1, rescored.newInside.1⟩
  · refine ⟨rightFits, newRightFits, rightAlike, fun _ _ _ _ _ there => ?_, rescored.inside.2.1,
      rightExact⟩
    rw [Nat.add_assoc]
    exact rescored.emissions _ _ _ _ _ (.right _ _ _ there)

/-- Merged substates have the inside scores of their members, by induction from the words up: at each
node the rule averages over rows that do not differ. -/
theorem lumped (rescored : Rescored coarse model mappings position tree other)
    (merged : coarse.grammar.rules.MergedFrom model.grammar.rules mappings weights coarse.substates)
    (maps : Maps mappings model.substates coarse.substates)
    (indistinct : ∀ node ∈ tree.subtrees, ∀ key : Production, key.parent = node.state →
      model.grammar.rules.Indistinct mappings key) :
    List.Forall₂ (Lumped mappings) tree.subtrees other.subtrees := by
  have top (s image : Nat) (found : (mapOf mappings tree.state)[s]? = some image) :=
    below_of_mapped maps rescored.fits rescored.others rescored.state_eq found
  have own := indistinct tree tree.mem_subtrees_self
  induction tree generalizing other position with
  | preterminal state word scores =>
    obtain ⟨newScores, rfl⟩ := skeleton_eq_preterminal rescored.skeleton
    refine .cons (fun s image found => ?_) .nil
    obtain ⟨below, newBelow⟩ := top s image found
    have scored := rescored.emissions 0 0 state word scores (.top _) s image found
    exact (rescored.newInside image newBelow).trans (scored.trans (rescored.inside s below).symm)
  | unary state scores child ih =>
    obtain ⟨newScores, inner, rfl, inside⟩ := rescored.unary_cases
    have below := ih inside (fun node member => indistinct node (by simp [subtrees, member]))
      (fun s image => below_of_mapped maps inside.fits inside.others inside.state_eq)
      (indistinct child (by simp [subtrees, mem_subtrees_self]))
    refine .cons (fun s image found => ?_) below
    obtain ⟨small, newSmall⟩ := top s image found
    have newDimensions := rescored.others.dimensions_unary
    have here := rescored.newInside.2 image newSmall
    rw [inside.state_eq] at newDimensions here
    have row := merged.lumped maps (own _ rfl) rescored.fits.dimensions_unary newDimensions found
      (lumped_top below) (single_same fun _ => (1 : α))
    simp only [sum_range_one, mul_one] at row
    exact here.trans (row.trans (rescored.inside.2 s small).symm)
  | binary state scores left right leftIh rightIh =>
    obtain ⟨newScores, newLeft, newRight, rfl, inLeft, inRight⟩ := rescored.binary_cases
    have leftBelow := leftIh inLeft
      (fun node member => indistinct node (by simp [subtrees, member]))
      (fun s image => below_of_mapped maps inLeft.fits inLeft.others inLeft.state_eq)
      (indistinct left (by simp [subtrees, mem_subtrees_self]))
    have rightBelow := rightIh inRight
      (fun node member => indistinct node (by simp [subtrees, member]))
      (fun s image => below_of_mapped maps inRight.fits inRight.others inRight.state_eq)
      (indistinct right (by simp [subtrees, mem_subtrees_self]))
    refine .cons (fun s image found => ?_) (List.rel_append leftBelow rightBelow)
    obtain ⟨small, newSmall⟩ := top s image found
    have newDimensions := rescored.others.dimensions_binary
    have here := rescored.newInside.2.2 image newSmall
    rw [inLeft.state_eq, inRight.state_eq] at newDimensions here
    have row := merged.lumped maps (own _ rfl) rescored.fits.dimensions_binary newDimensions found
      (lumped_top leftBelow) (lumped_top rightBelow)
    exact here.trans (row.trans (rescored.inside.2.2 s small).symm)

end Rescored

theorem SameEmissions.of_alike {old new : Lexicon α} (alike : other.Alike tree)
    (emissions : tree.SameEmissions mappings old new position) :
    other.SameEmissions mappings old new position := by
  intro index before state word scores there
  have back : tree.Alike other := Eq.symm alike
  obtain ⟨result, here, same⟩ := back.at_ there
  obtain ⟨_, rfl⟩ := skeleton_eq_preterminal same.skeleton_eq
  exact emissions index before state word _ here

end LatentTree

theorem first_of_single {mapping : List Nat} {new : Nat} (maps : MapsOnto mapping 1 new) :
    mapping[0]? = some 0 := by
  obtain ⟨image, rfl⟩ := List.length_eq_one_iff.mp maps.length_eq
  have positive := (maps.onto image).mp (List.mem_singleton_self image)
  have zero := (maps.onto 0).mpr (by omega)
  exact congrArg some (List.mem_singleton.mp zero).symm

/-- The rows of the new table are averages of rows of the old one, by weights that add up to one over
every class: the row totals of each rule, and those of all rules of a category together. So they are
one where those of all members are. -/
structure RuleTable.Averages (new old : RuleTable α) (mappings : List (List Nat))
    (weights : List (List α)) (images : List Nat) : Prop where
  whole : ∀ (state image : Nat), image ∈ mapOf mappings state →
    ∑ n ∈ fiber (mapOf mappings state) image, weightOf mappings weights state n = 1
  nonneg : (∀ row ∈ weights, ∀ weight ∈ row, 0 ≤ weight) →
    ∀ state n, 0 ≤ weightOf mappings weights state n
  rows : ∀ key block, old.find? key = some block → ∃ merged, new.find? key = some merged ∧
    ∀ parents lefts rights, key.dimensions images = .ok (parents, lefts, rights) →
      ∀ image < parents, ∃ totals : Nat → α,
        (∀ n ∈ fiber (key.parentMap mappings) image, block.rowTotal n = .ok (totals n)) ∧
        merged.rowTotal image = .ok (∑ n ∈ fiber (key.parentMap mappings) image,
          weightOf mappings weights key.parent n * totals n)
  sums : ∀ (state size : Nat), images[state]? = some size → ∀ image < size,
    new.parentSum state image = ∑ n ∈ fiber (mapOf mappings state) image,
      weightOf mappings weights state n * old.parentSum state n
  normal : ∀ (state image : Nat), image ∈ mapOf mappings state →
    (∀ n ∈ fiber (mapOf mappings state) image, old.parentSum state n = 1) →
      new.parentSum state image = 1

theorem weightOf_nonneg (positive : ∀ row ∈ weights, ∀ weight ∈ row, 0 ≤ weight) (state n : Nat) :
    0 ≤ weightOf mappings weights state n := by
  have each (m : Nat) : 0 ≤ entry ((weights[state]?).getD []) m := by
    unfold entry
    cases found : weights[state]? with
    | none => simp
    | some row =>
      cases here : row[m]? with
      | none => simp [here]
      | some weight =>
        simpa [here] using positive row (List.mem_of_getElem? found) weight (List.mem_of_getElem? here)
  unfold weightOf
  cases found : (mapOf mappings state)[n]? with
  | none =>
    have beyond : (relativeWeights (mapOf mappings state) ((weights[state]?).getD []))[n]? = none := by
      simpa [relativeWeights] using found
    rw [entry, beyond]
    exact le_rfl
  | some image =>
    rw [entry_relativeWeights _ found]
    split
    · exact div_nonneg (each n) (le_of_lt ‹_›)
    · exact div_nonneg zero_le_one (Nat.cast_nonneg _)

theorem Maps.lt_of_image (maps : Maps mappings substates images) {state image : Nat}
    (member : image ∈ mapOf mappings state) :
    ∃ size, images[state]? = some size ∧ image < size := by
  cases found : mappings[state]? with
  | none => simp [mapOf, found] at member
  | some mapping =>
    obtain ⟨size, known, sized⟩ := exists_of_forall₂ maps.sized.flip found
    obtain ⟨new, -, image, into⟩ := maps.mapsInto known
    exact ⟨new, image, into.below _ member⟩

namespace Grammar

variable {grammar merged : Grammar α} (rules : grammar.rules.Fits grammar.substates)
  (known : mappings.mapM imageSize = .ok images) (maps : Maps mappings grammar.substates images)
  (enough : grammar.substates.length ≤ weights.length)
  (done : grammar.merge mappings weights = .ok merged)

include rules known maps enough done

theorem merge_row {key : Production} {block : RuleBlock α}
    (present : grammar.rules.find? key = some block) :
    ∃ new parents lefts rights newParents newLefts newRights,
      merged.rules.find? key = some new ∧
      key.dimensions grammar.substates = .ok (parents, lefts, rights) ∧
      key.dimensions images = .ok (newParents, newLefts, newRights) ∧
      MapsInto (key.parentMap mappings) parents newParents ∧
      ∀ image < newParents,
        ∑ j ∈ range newLefts, ∑ k ∈ range newRights, merged.rules.cell key image j k =
          ∑ n ∈ fiber (key.parentMap mappings) image, weightOf mappings weights key.parent n *
            ∑ j ∈ range lefts, ∑ k ∈ range rights, grammar.rules.cell key n j k := by
  have cells := merge_cells rules known maps enough done
  obtain ⟨-, -, -, mapped⟩ := merge_eq_ok known done
  have found := RuleCounts.find?_mapScoresM mapped key
  rw [present] at found
  obtain ⟨new, -, there⟩ := found
  obtain ⟨parents, lefts, rights, dimensions, -⟩ := rules.find? present
  obtain ⟨newParents, newLefts, newRights, newDimensions, up, -⟩ :=
    Production.dimensions_images maps dimensions
  refine ⟨new, parents, lefts, rights, newParents, newLefts, newRights, there, dimensions,
    newDimensions, up, fun image below => ?_⟩
  have one (mapping : List Nat) : SameValues mapping (fun _ => (1 : α)) fun _ => 1 :=
    fun _ _ _ => rfl
  simpa using cells.average maps dimensions newDimensions below (one _) (one _)

omit rules maps enough in
theorem merge_keys : merged.rules.keys = grammar.rules.keys := by
  obtain ⟨-, -, -, mapped⟩ := merge_eq_ok known done
  ext key
  have found := RuleCounts.find?_mapScoresM mapped key
  rw [RuleTable.mem_keys, RuleTable.mem_keys]
  cases present : grammar.rules.find? key with
  | none =>
    rw [present] at found
    simp [found]
  | some block =>
    rw [present] at found
    obtain ⟨new, -, there⟩ := found
    simp [there]

/-- What the rules of a category have in a merged row together. -/
theorem merge_parentSum (newRules : merged.rules.Fits images) {state size : Nat}
    (found : images[state]? = some size) {image : Nat} (below : image < size) :
    merged.rules.parentSum state image = ∑ n ∈ fiber (mapOf mappings state) image,
      weightOf mappings weights state n * grammar.rules.parentSum state n := by
  let weight := weightOf mappings weights state
  let rows (n : Nat) (key : Production) : α := grammar.rules.sumRow key (grammar.rules.cell key n)
  have each : ∀ key ∈ grammar.rules.keys.filter (·.parent = state),
      merged.rules.sumRow key (merged.rules.cell key image) =
        ∑ n ∈ fiber (mapOf mappings state) image, weight n * rows n key := by
    intro key member
    obtain ⟨listed, rfl⟩ := mem_filter.mp member
    obtain ⟨block, present⟩ := RuleTable.mem_keys.mp listed
    obtain ⟨new, parents, lefts, rights, newParents, newLefts, newRights, there, dimensions,
      newDimensions, -, average⟩ := merge_row rules known maps enough done present
    cases found.symm.trans (Production.parent_of_dimensions newDimensions)
    rw [newRules.sumRow_eq there newDimensions, average image below]
    exact sum_congr rfl fun n _ => by rw [← rules.sumRow_eq present dimensions]
  calc merged.rules.parentSum state image
    _ = ∑ key ∈ grammar.rules.keys with key.parent = state,
          ∑ n ∈ fiber (mapOf mappings state) image, weight n * rows n key := by
        rw [RuleTable.parentSum, merge_keys known done]
        exact sum_congr rfl each
    _ = _ := by
        rw [sum_comm]
        exact sum_congr rfl fun n _ => by rw [← mul_sum, RuleTable.parentSum]

theorem merge_averages : merged.rules.Averages grammar.rules mappings weights images := by
  obtain ⟨-, -, -, -, newRules⟩ := (merge_delivers rules known maps enough (fun _ => any_overflow)
    (delivers_any (mergeAncestries grammar.ancestry mappings images))).of_ok done
  have sums {state size image : Nat} (found : images[state]? = some size) (below : image < size) :=
    merge_parentSum rules known maps enough done newRules found below
  refine ⟨fun state image member => sum_weightOf weights member, weightOf_nonneg, ?_,
    fun state size found image below => sums found below, ?_⟩
  · intro key block present
    obtain ⟨new, parents, lefts, rights, newParents, newLefts, newRights, there, dimensions,
      newDimensions, up, average⟩ := merge_row rules known maps enough done present
    refine ⟨new, there, fun _ _ _ again image below => ?_⟩
    cases newDimensions.symm.trans again
    refine ⟨fun n => ∑ j ∈ range lefts, ∑ k ∈ range rights, block.cell n j k, fun n member => ?_, ?_⟩
    · refine ((rules.find? present).sized dimensions).rowTotal_eq ?_
      rw [← up.length_eq]
      exact (List.getElem?_eq_some_iff.mp (mem_fiber.mp member)).1
    · have total := average image below
      simp only [RuleTable.cell, there, present] at total
      rw [((newRules.find? there).sized newDimensions).rowTotal_eq below, total]
  · intro state image member ones
    obtain ⟨size, found, below⟩ := maps.lt_of_image member
    rw [sums found below, ← sum_weightOf weights member]
    exact sum_congr rfl fun n inside => by rw [ones n inside, mul_one]

end Grammar

namespace Model

variable {model coarse : Model α} {tree other : LatentTree α}

/-- The scores of a tree in the light of a coarser model. -/
theorem lumped_scores (rules : model.grammar.rules.Fits model.substates)
    (consistent : model.lexicon.Consistent) (same : model.lexicon.substates = model.substates)
    (newRules : coarse.grammar.rules.Fits coarse.substates)
    (newConsistent : coarse.lexicon.Consistent)
    (newSame : coarse.lexicon.substates = coarse.substates)
    (maps : Maps mappings model.substates coarse.substates)
    (cells : coarse.grammar.rules.MergedFrom model.grammar.rules mappings weights coarse.substates)
    (indistinct : ∀ key, model.grammar.rules.Indistinct mappings key)
    (fits : tree.Fits model.substates) (others : other.Fits coarse.substates)
    (skeleton : other.skeleton = tree.skeleton)
    (emissions : tree.SameEmissions mappings model.lexicon coarse.lexicon 0) :
    ∃ scored rescored, tree.computeInside model = .ok scored ∧
      other.computeInside coarse = .ok rescored ∧
      List.Forall₂ (LatentTree.Lumped mappings) scored.subtrees rescored.subtrees ∧
      ((mapOf mappings tree.state)[0]? = some 0 →
        ∃ mass newMass, scored.mass = .ok mass ∧ rescored.mass = .ok newMass ∧
          newMass * Scalar.scaleFactor rescored.inside.scale =
            mass * Scalar.scaleFactor scored.inside.scale) := by
  obtain ⟨scored, success, alike, exact⟩ :=
    LatentTree.exists_computeInside rules consistent same fits
  obtain ⟨rescored, newSuccess, newAlike, newExact⟩ :=
    LatentTree.exists_computeInside newRules newConsistent newSame others
  have shape : rescored.skeleton = scored.skeleton :=
    newAlike.skeleton_eq.trans (skeleton.trans alike.skeleton_eq.symm)
  have lumped := LatentTree.Rescored.lumped ⟨alike.fits fits, newAlike.fits others, shape,
    emissions.of_alike alike, exact, newExact⟩ cells maps fun _ _ key _ => indistinct key
  refine ⟨scored, rescored, success, newSuccess, lumped, fun first => ?_⟩
  rw [← alike.state_eq] at first
  obtain ⟨some, newSome⟩ := LatentTree.below_of_mapped maps (alike.fits fits) (newAlike.fits others)
    (LatentTree.state_eq_of_skeleton shape) first
  exact ⟨_, _, LatentTree.mass_eq_of_nonempty some, LatentTree.mass_eq_of_nonempty newSome,
    LatentTree.lumped_top lumped 0 0 first⟩

/-- Merging substates that neither rules nor words tell apart loses nothing: with the merged grammar,
and words that score under merged substates as under their members, every merged substate has the
inside score of its members at every node of every tree, and the tree its likelihood, which is that
of the first substate at the top: the only one there, or one that stays the first. Whatever is merged,
row totals are averaged, so that rows that sum to one still do. -/
theorem merge_lossless (rules : model.grammar.rules.Fits model.substates)
    (consistent : model.lexicon.Consistent) (same : model.lexicon.substates = model.substates)
    (ancestry : List.Forall₂ Ancestry.Fits model.grammar.ancestry model.substates)
    (enough : model.substates.length ≤ weights.length) :
    (∀ images, OntoMaps mappings model.substates images →
      (∀ key, model.grammar.rules.Indistinct mappings key) →
        Delivers model.grammar.Cramped (fun merged => merged.substates = images ∧
          ∀ (lexicon : Lexicon α) (tree other : LatentTree α),
            lexicon.Consistent → lexicon.substates = images →
            tree.Fits model.substates → other.Fits images → other.skeleton = tree.skeleton →
            tree.SameEmissions mappings model.lexicon lexicon 0 →
            ∃ scored rescored, tree.computeInside model = .ok scored ∧
              other.computeInside ⟨merged, lexicon⟩ = .ok rescored ∧
              List.Forall₂ (LatentTree.Lumped mappings) scored.subtrees rescored.subtrees ∧
              (tree.substates = 1 ∨ (mapOf mappings tree.state)[0]? = some 0 →
                ∃ mass newMass, scored.mass = .ok mass ∧ rescored.mass = .ok newMass ∧
                  newMass * Scalar.scaleFactor rescored.inside.scale =
                    mass * Scalar.scaleFactor scored.inside.scale))
          (model.grammar.merge mappings weights)) ∧
    (List.Forall₂ (fun mapping size => mapping.length = size) mappings model.substates →
      Delivers Overflow (fun merged => ∃ images, mappings.mapM imageSize = .ok images ∧
          merged.substates = images ∧
          merged.rules.Averages model.grammar.rules mappings weights images)
        (model.grammar.merge mappings weights)) := by
  constructor
  · intro images onto indistinct
    refine (onto.merge_delivers rules ancestry enough).mono_ok fun merged done result => ?_
    obtain ⟨sizes, -, known, -, newRules⟩ := result
    subst sizes
    refine ⟨rfl, fun lexicon tree other newConsistent newSame fits others skeleton emissions => ?_⟩
    let coarse : Model α := ⟨merged, lexicon⟩
    have cells : coarse.grammar.rules.MergedFrom model.grammar.rules mappings weights _ :=
      Grammar.merge_cells rules known onto.maps enough done
    obtain ⟨scored, rescored, success, newSuccess, lumped, mass⟩ :=
      lumped_scores rules consistent same newRules newConsistent newSame onto.maps cells indistinct
        fits others skeleton emissions
    refine ⟨scored, rescored, success, newSuccess, lumped, fun first => mass ?_⟩
    rcases first with single | first
    · have size := fits.substates_eq
      rw [single] at size
      obtain ⟨new, -, -, maps⟩ := onto.of_size size
      exact first_of_single maps
    · exact first
  · intro sized
    have sizes : Delivers Overflow
        (List.Forall₂ (fun mapping new => ∀ image ∈ mapping, image < new) mappings)
        (mappings.mapM imageSize) :=
      Delivers.mapM fun mapping _ => imageSize_delivers mapping overflow_overflow
    cases known : mappings.mapM imageSize with
    | error fault =>
      rw [known] at sizes
      rw [Grammar.merge, known]
      exact sizes
    | ok images =>
      have maps : Maps mappings model.substates images := ⟨sized, sizes.of_ok known⟩
      refine (Grammar.merge_delivers rules known maps enough (fun _ => overflow_overflow)
        (mergeAncestries_delivers ancestry maps fun _ => overflow_overflow)).mono_ok
        fun merged done result => ⟨images, rfl, result.1, ?_⟩
      exact Grammar.merge_averages rules known maps enough done

/-- The sample model with other scores: its second category has two substates that no rule and no
word tells apart, though their cells differ. -/
def twinModel : Model Rat :=
  { sampleModel with
    grammar :=
      { sampleModel.grammar with
        rules := ⟨[(.unary 0 1, ⟨1, 2, 1, #[1 / 2, 1 / 4]⟩),
          (.binary 1 1 1, ⟨2, 2, 2, #[1 / 4, 0, 0, 1 / 4, 0, 1 / 8, 3 / 8, 0]⟩)]⟩ }
    lexicon :=
      { sampleModel.lexicon with
        tables :=
          { sampleModel.lexicon.tables with
            tagCounts := [[0], [2, 4]]
            wordCounts := [[], [("rain", [1, 2]), ("fell", [1, 2])]] } } }

/-- The lexicon of the twin model with the twins merged. -/
def singleLexicon : Lexicon Rat :=
  { twinModel.lexicon with
    substates := [1, 1]
    ancestry := [⟨[some 0]⟩, ⟨[some 0]⟩]
    tables :=
      { twinModel.lexicon.tables with
        tagCounts := [[0], [6]]
        wordCounts := [[], [("rain", [3]), ("fell", [3])]]
        unseenTagCounts := [[0], [0]] } }

def singleTree : LatentTree Rat :=
  .unary 0 (blankScores 1)
    (.binary 1 (blankScores 1) (.preterminal 1 "rain" (blankScores 1))
      (.preterminal 1 "fell" (blankScores 1)))

theorem twinModel_indistinct (key : Production) :
    twinModel.grammar.rules.Indistinct [[0], [0, 0]] key := by
  have twins : fiber [0, 0] 0 = {0, 1} := by decide
  have beyond (j : Nat) : fiber [0, 0] (j + 1) = ∅ := by
    apply eq_empty_of_forall_notMem
    rintro (_ | _ | n) member <;> simp [mem_fiber] at member
  have two (n image : Nat) (found : [0, 0][n]? = some image) : n = 0 ∨ n = 1 := by
    have below := (List.getElem?_eq_some_iff.mp found).1
    simp only [List.length_cons, List.length_nil] at below
    omega
  intro one other image here there j' k'
  by_cases unary : key = .unary 0 1
  · subst unary
    obtain ⟨below, -⟩ := List.getElem?_eq_some_iff.mp here
    obtain ⟨again, -⟩ := List.getElem?_eq_some_iff.mp there
    obtain rfl : one = other := by
      change one < 1 at below
      change other < 1 at again
      omega
    rfl
  by_cases binary : key = .binary 1 1 1
  · subst binary
    have total (n : Nat) (here : n = 0 ∨ n = 1) :
        ∑ j ∈ fiber [0, 0] j', ∑ k ∈ fiber [0, 0] k',
          twinModel.grammar.rules.cell (.binary 1 1 1) n j k = if j' = 0 ∧ k' = 0 then 1 / 2 else 0 := by
      rcases j' with _ | j'
      · rcases k' with _ | k'
        · rw [twins]
          rcases here with rfl | rfl <;> decide +kernel
        · simp [beyond]
      · simp [beyond]
    exact (total one (two one image here)).trans (total other (two other image there)).symm
  · have absent : twinModel.grammar.rules.find? key = none := by
      simp [RuleTable.find?, twinModel, List.lookup_eq_none_iff, unary, binary]
    simp [RuleTable.cell, absent]

theorem twinModel_emissions :
    sampleTree.SameEmissions [[0], [0, 0]] twinModel.lexicon singleLexicon 0 := by
  intro index before state word scores there
  cases there with
  | only _ _ there =>
    cases there with
    | left _ _ _ there =>
      cases there with
      | top => exact pair_same (by decide +kernel) (by decide +kernel)
    | right _ _ _ there =>
      cases there with
      | top => exact pair_same (by decide +kernel) (by decide +kernel)

theorem twinModel_rules_fit : twinModel.grammar.rules.Fits twinModel.substates := by
  simp only [RuleTable.Fits, twinModel, List.forall_mem_cons]
  exact ⟨⟨1, 2, 1, rfl, rfl, rfl, rfl, rfl⟩, ⟨2, 2, 2, rfl, rfl, rfl, rfl, rfl⟩, by simp⟩

theorem twinModel_merge_lossless :
    ∃ merged scored rescored mass newMass,
      twinModel.grammar.merge [[0], [0, 0]] [[1], [1, 3]] = .ok merged ∧
      merged.substates = [1, 1] ∧
      sampleTree.computeInside twinModel = .ok scored ∧
      singleTree.computeInside ⟨merged, singleLexicon⟩ = .ok rescored ∧
      scored.mass = .ok mass ∧ rescored.mass = .ok newMass ∧
      newMass * Scalar.scaleFactor rescored.inside.scale =
        mass * Scalar.scaleFactor scored.inside.scale := by
  have consistent : twinModel.lexicon.Consistent :=
    ⟨by simp [twinModel, sampleModel, Ancestry.Fits, Ancestry.size],
      by constructor <;> simp [twinModel, sampleModel, HasSize, NameTable.Fits]⟩
  have single : singleLexicon.Consistent :=
    ⟨by simp [singleLexicon, Ancestry.Fits, Ancestry.size],
      by constructor <;> simp [singleLexicon, twinModel, sampleModel, HasSize, NameTable.Fits]⟩
  have onto : OntoMaps [[0], [0, 0]] twinModel.substates [1, 1] :=
    .cons ⟨rfl, by simp⟩ (.cons ⟨rfl, by simp⟩ .nil)
  have fits : singleTree.Fits [1, 1] := by
    have sized (state : Nat) (found : [1, 1][state]? = some 1) :
        (blankScores 1).Fits [1, 1] state :=
      ⟨found, rfl, by decide⟩
    simp only [singleTree, LatentTree.fits_unary, LatentTree.fits_binary, LatentTree.fits_preterminal]
    exact ⟨sized 0 rfl, sized 1 rfl, sized 1 rfl, sized 1 rfl⟩
  have lossless := (merge_lossless twinModel_rules_fit consistent rfl
    (by simp [twinModel, sampleModel, substates, Ancestry.Fits, Ancestry.size]) le_rfl :
    _ ∧ (_ → Delivers Overflow _ (twinModel.grammar.merge [[0], [0, 0]] [[(1 : Rat)], [1, 3]])))
  have delivers := lossless.1 [1, 1] onto twinModel_indistinct
  cases merged : twinModel.grammar.merge [[0], [0, 0]] [[(1 : Rat)], [1, 3]] with
  | error fault =>
    rw [merged] at delivers
    exact (delivers.2 (sampleModel_room.of_keys rfl)).elim
  | ok result =>
    rw [merged] at delivers
    obtain ⟨sizes, all⟩ := delivers
    obtain ⟨scored, rescored, success, newSuccess, -, same⟩ := all singleLexicon sampleTree singleTree
      single rfl sampleTree_fits fits rfl twinModel_emissions
    obtain ⟨mass, newMass, found, newFound, equal⟩ := same (.inl rfl)
    exact ⟨result, scored, rescored, mass, newMass, rfl, sizes, success, newSuccess, found, newFound,
      equal⟩

/-- The lexicon of the sample model with the substates of its second category the other way round. -/
def swappedLexicon : Lexicon Rat :=
  { sampleModel.lexicon with
    tables :=
      { sampleModel.lexicon.tables with
        tagCounts := [[0], [4, 2]]
        wordCounts := [[], [("rain", [1, 2]), ("fell", [3, 0])]] } }

/-- A tree with two substates at the top. -/
def pairTree : LatentTree Rat :=
  .binary 1 (blankScores 2) (.preterminal 1 "rain" (blankScores 2))
    (.preterminal 1 "fell" (blankScores 2))

/-- The likelihoods of the tree before and after the substates of its top category change places. -/
def pairTreeMasses : Except Fault (Rat × Rat) := do
  let merged ← sampleModel.grammar.merge [[0], [1, 0]] [[1], [1, 1]]
  let scored ← pairTree.computeInside sampleModel
  let rescored ← pairTree.computeInside ⟨merged, swappedLexicon⟩
  return ((← scored.mass) * Scalar.scaleFactor scored.inside.scale,
    (← rescored.mass) * Scalar.scaleFactor rescored.inside.scale)

theorem pairTreeMasses_eq : pairTreeMasses = .ok (9 / 32, 3 / 32) := by
  decide +kernel

/-- A swap merges nothing, so there is nothing to tell apart. -/
theorem swap_indistinct (key : Production) :
    sampleModel.grammar.rules.Indistinct [[0], [1, 0]] key := by
  have apart (state : Nat) : (mapOf [[0], [1, 0]] state).Nodup := by
    rcases state with _ | _ | state <;> simp [mapOf]
  intro one other image here there _ _
  have below := (List.getElem?_eq_some_iff.mp here).1
  rw [(List.getElem?_inj below (apart key.parent)).mp (here.trans there.symm)]

theorem swap_emissions :
    pairTree.SameEmissions [[0], [1, 0]] sampleModel.lexicon swappedLexicon 0 := by
  intro index before state word scores there
  cases there with
  | left _ _ _ there =>
    cases there with
    | top => exact pair_same (by decide +kernel) (by decide +kernel)
  | right _ _ _ there =>
    cases there with
    | top => exact pair_same (by decide +kernel) (by decide +kernel)

/-- Where the top of a tree has several substates, its likelihood is that of whichever comes first: it
can change although every substate keeps its inside score. -/
theorem pairTree_merge_moves_mass :
    ¬∀ (model : Model Rat) (mappings : List (List Nat)) (images : List Nat)
        (weights : List (List Rat)), model.grammar.rules.Fits model.substates →
      model.lexicon.Consistent → model.lexicon.substates = model.substates →
      List.Forall₂ Ancestry.Fits model.grammar.ancestry model.substates →
      (∀ row ∈ weights, ∀ weight ∈ row, 0 ≤ weight) → model.substates.length ≤ weights.length →
      OntoMaps mappings model.substates images →
      (∀ key, model.grammar.rules.Indistinct mappings key) →
        ∀ merged, model.grammar.merge mappings weights = .ok merged →
          ∀ (lexicon : Lexicon Rat) (tree other : LatentTree Rat),
            lexicon.Consistent → lexicon.substates = images →
            tree.Fits model.substates → other.Fits images → other.skeleton = tree.skeleton →
            tree.SameEmissions mappings model.lexicon lexicon 0 →
            ∀ scored rescored mass newMass, tree.computeInside model = .ok scored →
              other.computeInside ⟨merged, lexicon⟩ = .ok rescored →
              scored.mass = .ok mass → rescored.mass = .ok newMass →
                newMass * Scalar.scaleFactor rescored.inside.scale =
                  mass * Scalar.scaleFactor scored.inside.scale := by
  intro claimed
  have consistent : swappedLexicon.Consistent :=
    ⟨sampleModel_lexicon_consistent.ancestry,
      by constructor <;> simp [swappedLexicon, sampleModel, HasSize, NameTable.Fits]⟩
  have onto : OntoMaps [[0], [1, 0]] sampleModel.substates [1, 2] :=
    .cons ⟨rfl, by simp⟩ (.cons ⟨rfl, fun image => by simp; omega⟩ .nil)
  have fits : pairTree.Fits sampleModel.substates := (LatentTree.fits_unary.mp sampleTree_fits).2
  obtain ⟨merged, merges, rest⟩ := bind_eq_ok_iff.mp pairTreeMasses_eq
  obtain ⟨scored, scores, rest⟩ := bind_eq_ok_iff.mp rest
  obtain ⟨rescored, rescores, rest⟩ := bind_eq_ok_iff.mp rest
  obtain ⟨mass, found, rest⟩ := bind_eq_ok_iff.mp rest
  obtain ⟨newMass, newFound, rest⟩ := bind_eq_ok_iff.mp rest
  obtain ⟨before, after⟩ := Prod.mk.inj (Except.ok.inj rest)
  have same := claimed sampleModel [[0], [1, 0]] [1, 2] [[1], [1, 1]] sampleModel_rules_fit
    sampleModel_lexicon_consistent rfl sampleModel_lexicon_consistent.ancestry (by simp) le_rfl onto
    swap_indistinct merged merges swappedLexicon pairTree pairTree consistent rfl fits fits rfl
    swap_emissions scored rescored mass newMass scores rescores found newFound
  rw [before, after] at same
  norm_num at same

end Model

end LatentGrammar
