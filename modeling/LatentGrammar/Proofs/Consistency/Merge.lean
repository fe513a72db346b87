import LatentGrammar.Proofs.Consistency.Split
import LatentGrammar.Proofs.Counting.Loops
import LatentGrammar.Merging

namespace LatentGrammar

variable {α : Type} {allowed : Fault → Prop}

/-- The mapping sends each of `old` substates to one of `new` ones. -/
structure MapsInto (mapping : List Nat) (old new : Nat) : Prop where
  length_eq : mapping.length = old
  below : ∀ image ∈ mapping, image < new

theorem MapsInto.fetch {mapping : List Nat} {old new : Nat} (maps : MapsInto mapping old new)
    {n : Nat} (inside : n < old) : Delivers allowed (· < new) (LatentGrammar.fetch mapping n) := by
  rw [← maps.length_eq] at inside
  exact delivers_fetch ⟨_, List.getElem?_eq_getElem inside, maps.below _ (List.getElem_mem inside)⟩

theorem imageSize_delivers (mapping : List Nat) (overflow : allowed .overflow) :
    Delivers allowed (fun new => ∀ image ∈ mapping, image < new) (imageSize mapping) := by
  unfold imageSize
  cases greatest : mapping.max? with
  | none =>
    rw [List.max?_eq_none_iff.mp greatest]
    exact fun image member => absurd member List.not_mem_nil
  | some greatest =>
    apply (delivers_word overflow).mono
    intro new same image member
    have bound := (List.max?_eq_some_iff.mp ‹_›).2 image member
    omega

theorem collapseTargets_delivers {size : Nat} {pairs : List (Nat × Nat)}
    (inside : ∀ pair ∈ pairs, pair.1 < size ∧ pair.2 < size) :
    Delivers allowed (·.length = size) (collapseTargets size pairs) := by
  refine Delivers.foldlM List.length_range fun targets (a, b) member length => ?_
  obtain ⟨first, second⟩ := inside (a, b) member
  have below : max a b < targets.length := by
    dsimp only at first second
    omega
  exact (delivers_fetch_below below).bind fun _ _ => by simpa using length

theorem length_numberTargets (numbered : List Nat) (next : Nat) (targets : List Nat) :
    (numberTargets numbered next targets).length = targets.length := by
  induction targets generalizing numbered next with
  | nil => rfl
  | cons target rest ih =>
    unfold numberTargets
    split <;> simp [ih]

theorem collapseMap_delivers {size : Nat} {pairs : List (Nat × Nat)}
    (inside : ∀ pair ∈ pairs, pair.1 < size ∧ pair.2 < size) (overflow : allowed .overflow) :
    Delivers allowed (·.length = size) (collapseMap size pairs) := by
  apply (delivers_checkSizes fun _ => overflow).bind
  intro _ _
  apply (collapseTargets_delivers inside).bind
  intro targets length
  exact (length_numberTargets [] 0 targets).trans length

/-- Both substates of the pair are there, in a category that is not the root. -/
structure SiblingPair.Fits (pair : SiblingPair α) (substates : List Nat) (root : Nat) : Prop where
  state_ne : pair.state ≠ root
  known : pair.state < substates.length
  inside : ∀ size, substates[pair.state]? = some size → pair.first < size ∧ pair.second < size

/-- Every category has a mapping of its substates, and the root's only substate stays. -/
structure MappingsFit (mappings : List (List Nat)) (substates : List Nat) (root : Nat) : Prop where
  sized : List.Forall₂ (fun mapping size => mapping.length = size) mappings substates
  root : mappings[root]? = some [0]

variable {substates images : List Nat} {mappings : List (List Nat)} {root : Nat}

theorem collapseMaps_delivers {selected : List (SiblingPair α)} (single : substates[root]? = some 1)
    (fits : ∀ pair ∈ selected, pair.Fits substates root) (overflow : allowed .overflow) :
    Delivers allowed (MappingsFit · substates root) (collapseMaps substates selected) := by
  have each (size state : Nat) (found : substates[state]? = some size) :
      Delivers allowed (fun mapping => mapping.length = size ∧ (state = root → mapping = [0]))
        (collapseMap size ((selected.filter (·.state == state)).map fun c => (c.first, c.second))) := by
    by_cases isRoot : state = root
    · subst isRoot
      cases found.symm.trans single
      have none : selected.filter (·.state == state) = [] := by
        apply List.filter_eq_nil_iff.mpr
        intro pair member same
        exact (fits pair member).state_ne (by simpa using same)
      rw [none]
      exact ⟨rfl, fun _ => rfl⟩
    · refine (collapseMap_delivers (fun pair member => ?_) overflow).mono fun mapping length =>
        ⟨length, fun same => absurd same isRoot⟩
      obtain ⟨candidate, chosen, rfl⟩ := List.mem_map.mp member
      obtain ⟨present, same⟩ := List.mem_filter.mp chosen
      obtain rfl : candidate.state = state := by simpa using same
      exact (fits candidate present).inside size found
  refine (Delivers.mapM_zipIdx fun size state found =>
    (each size state found).mono fun mapping holds => (⟨size, found, holds⟩ :
      ∃ size, substates[state]? = some size ∧ mapping.length = size ∧
        (state = root → mapping = [0]))).mono fun mappings ⟨length, all⟩ => ⟨?_, ?_⟩
  · apply forall₂_of_getElem? length
    intro state mapping size found known
    obtain ⟨again, same, sized, -⟩ := all state mapping found
    cases known.symm.trans same
    exact sized
  · have below : root < mappings.length := by
      rw [length]
      exact (List.getElem?_eq_some_iff.mp single).1
    have found := List.getElem?_eq_getElem below
    obtain ⟨-, -, -, same⟩ := all root _ found
    rw [found, same rfl]

/-- Every mapping reaches only below the number of its category's new substates. -/
structure ImagesFit (mappings : List (List Nat)) (images : List Nat) (root : Nat) : Prop where
  below : List.Forall₂ (fun mapping new => ∀ image ∈ mapping, image < new) mappings images
  root : images[root]? = some 1

theorem mapM_imageSize_delivers (fits : MappingsFit mappings substates root)
    (overflow : allowed .overflow) :
    Delivers allowed (ImagesFit mappings · root) (mappings.mapM imageSize) := by
  have each (mapping : List Nat) :
      Delivers allowed (fun new => (∀ image ∈ mapping, image < new) ∧ (mapping = [0] → new = 1))
        (imageSize mapping) := by
    by_cases zero : mapping = [0]
    · subst zero
      exact ⟨fun image member => by simpa using member, fun _ => rfl⟩
    · exact (imageSize_delivers mapping overflow).mono fun new below =>
        ⟨below, fun same => absurd same zero⟩
  refine (Delivers.mapM fun mapping _ => each mapping).mono fun images all => ⟨?_, ?_⟩
  · exact all.imp fun _ _ holds => holds.1
  · obtain ⟨new, found, -, one⟩ := exists_of_forall₂ all.flip fits.root
    rw [found, one rfl]

/-- Every category has a mapping of its substates into as many as it has images. -/
structure Maps (mappings : List (List Nat)) (substates images : List Nat) : Prop where
  sized : List.Forall₂ (fun mapping size => mapping.length = size) mappings substates
  below : List.Forall₂ (fun mapping new => ∀ image ∈ mapping, image < new) mappings images

/-- The mapping of a category. -/
def mapOf (mappings : List (List Nat)) (state : Nat) : List Nat := (mappings[state]?).getD []

namespace Maps

variable (maps : Maps mappings substates images)

include maps

theorem length_images : images.length = substates.length :=
  maps.below.length_eq.symm.trans maps.sized.length_eq

theorem mapsInto {state size : Nat} (found : substates[state]? = some size) :
    ∃ new, mappings[state]? = some (mapOf mappings state) ∧ images[state]? = some new ∧
      MapsInto (mapOf mappings state) size new := by
  obtain ⟨mapping, present, sized⟩ := exists_of_forall₂ maps.sized found
  have below : state < images.length := by
    rw [maps.length_images]
    exact (List.getElem?_eq_some_iff.mp found).1
  have known := List.getElem?_eq_getElem below
  have same : mapOf mappings state = mapping := by rw [mapOf, present, Option.getD_some]
  rw [same]
  exact ⟨_, present, known, sized, relation_of_forall₂ maps.below present known⟩

theorem images_positive (positive : ∀ size ∈ substates, 1 ≤ size) : ∀ new ∈ images, 1 ≤ new := by
  intro new member
  obtain ⟨state, found⟩ := List.getElem?_of_mem member
  have below : state < substates.length := by
    rw [← maps.length_images]
    exact (List.getElem?_eq_some_iff.mp found).1
  have known := List.getElem?_eq_getElem below
  obtain ⟨again, -, same, into⟩ := maps.mapsInto known
  cases found.symm.trans same
  have nonempty : 0 < (mapOf mappings state).length := by
    rw [into.length_eq]
    exact positive _ (List.getElem_mem below)
  have image := into.below _ (List.getElem_mem nonempty)
  omega

end Maps

theorem MappingsFit.maps (fits : MappingsFit mappings substates root)
    (reach : ImagesFit mappings images root) : Maps mappings substates images :=
  ⟨fits.sized, reach.below⟩

namespace Production

variable {key : Production} {parents lefts rights newParents newLefts newRights : Nat}

def parentMap (key : Production) (mappings : List (List Nat)) : List Nat :=
  mapOf mappings key.parent

def leftMap (key : Production) (mappings : List (List Nat)) : List Nat :=
  match key with
  | unary _ child => mapOf mappings child
  | binary _ left _ => mapOf mappings left

/-- The single right substate of a unary rule stays alone. -/
def rightMap (key : Production) (mappings : List (List Nat)) : List Nat :=
  match key with
  | unary .. => [0]
  | binary _ _ right => mapOf mappings right

theorem dimensions_images (maps : Maps mappings substates images)
    (dimensions : key.dimensions substates = .ok (parents, lefts, rights)) :
    ∃ newParents newLefts newRights,
      key.dimensions images = .ok (newParents, newLefts, newRights) ∧
      MapsInto (key.parentMap mappings) parents newParents ∧
      MapsInto (key.leftMap mappings) lefts newLefts ∧
      MapsInto (key.rightMap mappings) rights newRights := by
  cases key with
  | unary parent child =>
    obtain ⟨foundParent, foundChild, rfl⟩ := dimensions_unary_iff.mp dimensions
    obtain ⟨newParents, -, newParent, up⟩ := maps.mapsInto foundParent
    obtain ⟨newLefts, -, newChild, down⟩ := maps.mapsInto foundChild
    exact ⟨newParents, newLefts, 1, dimensions_unary_iff.mpr ⟨newParent, newChild, rfl⟩, up, down,
      rfl, by simp [rightMap]⟩
  | binary parent left right =>
    obtain ⟨foundParent, foundLeft, foundRight⟩ := dimensions_binary_iff.mp dimensions
    obtain ⟨newParents, -, newParent, up⟩ := maps.mapsInto foundParent
    obtain ⟨newLefts, -, newLeft, first⟩ := maps.mapsInto foundLeft
    obtain ⟨newRights, -, newRight, second⟩ := maps.mapsInto foundRight
    exact ⟨newParents, newLefts, newRights,
      dimensions_binary_iff.mpr ⟨newParent, newLeft, newRight⟩, up, first, second⟩

theorem childMappings_eq (maps : Maps mappings substates images)
    (dimensions : key.dimensions substates = .ok (parents, lefts, rights)) :
    mappings[key.parent]? = some (key.parentMap mappings) ∧
      ∃ right, key.childMappings mappings = .ok (key.leftMap mappings, right) ∧
        ∀ k < rights, rightImage right k = fetch (key.rightMap mappings) k := by
  cases key with
  | unary parent child =>
    obtain ⟨foundParent, foundChild, rfl⟩ := dimensions_unary_iff.mp dimensions
    obtain ⟨-, up, -⟩ := maps.mapsInto foundParent
    obtain ⟨-, down, -⟩ := maps.mapsInto foundChild
    refine ⟨up, none, ?_, fun k single => ?_⟩
    · simp only [childMappings, fetch_eq_ok_iff.mpr down]
      rfl
    · obtain rfl : k = 0 := by omega
      rfl
  | binary parent left right =>
    obtain ⟨foundParent, foundLeft, foundRight⟩ := dimensions_binary_iff.mp dimensions
    obtain ⟨-, up, -⟩ := maps.mapsInto foundParent
    obtain ⟨-, first, -⟩ := maps.mapsInto foundLeft
    obtain ⟨-, second, -⟩ := maps.mapsInto foundRight
    refine ⟨up, some (mapOf mappings right), ?_, fun k _ => rfl⟩
    simp only [childMappings, fetch_eq_ok_iff.mpr first, fetch_eq_ok_iff.mpr second]
    rfl

end Production

/-- There is room for tables of these numbers of substates and for blocks of these rules. -/
structure HasRoom (substates : List Nat) (rules : RuleTable α) : Prop where
  sizes : ∀ size ∈ substates, size < Word.tableLimit
  blocks : ∀ entry ∈ rules.entries, ∀ parents lefts rights,
    entry.1.dimensions substates = .ok (parents, lefts, rights) →
      ∃ count, RuleBlock.cellCount parents lefts rights = .ok count

variable [Scalar α]

namespace RuleBlock

variable {old : RuleBlock α} {key : Production} {weights : List (List α)} {row : List α}
  {parents lefts rights newParents newLefts newRights : Nat}

/-- The block of zeros for given numbers of substates. -/
def blank (parents lefts rights : Nat) : RuleBlock α :=
  ⟨parents, lefts, rights, Array.replicate (parents * lefts * rights) 0⟩

theorem blank_sized (parents lefts rights : Nat) :
    (blank parents lefts rights : RuleBlock α).Sized parents lefts rights :=
  ⟨rfl, rfl, rfl, by simp [blank]⟩

theorem zeros_blank (crowded : (∀ count, cellCount parents lefts rights ≠ .ok count) →
      allowed .overflow) :
    Delivers allowed (· = (blank parents lefts rights : RuleBlock α))
      (zeros parents lefts rights) := by
  have counted := cellCount_delivers parents lefts rights overflow_overflow
  unfold zeros
  cases known : cellCount parents lefts rights with
  | ok count =>
    rw [known] at counted
    obtain rfl : count = parents * lefts * rights := counted
    rfl
  | error fault =>
    rw [known] at counted
    obtain rfl : fault = .overflow := counted
    refine crowded fun count same => ?_
    cases known.symm.trans same

open Finset in
/-- Merging adds every old cell, times its weight, to the new cell that it is mapped to. -/
theorem merge_grows {K : Type} [AddCommMonoid K] (view : RuleBlock α → K)
    (maps : Maps mappings substates images)
    (dimensions : key.dimensions substates = .ok (parents, lefts, rights))
    (newDimensions : key.dimensions images = .ok (newParents, newLefts, newRights))
    (sized : old.Sized parents lefts rights) (weighted : weights[key.parent]? = some row)
    (enough : parents ≤ row.length)
    (crowded : (∀ count, cellCount newParents newLefts newRights ≠ .ok count) → allowed .overflow)
    (amount : Nat → Nat → Nat → K)
    (each : ∀ (new : RuleBlock α) (i j k i' j' k' : Nat) (weight : α),
      new.Sized newParents newLefts newRights → i < parents → j < lefts → k < rights →
      i' < newParents → j' < newLefts → k' < newRights →
      (key.parentMap mappings)[i]? = some i' → (key.leftMap mappings)[j]? = some j' →
      (key.rightMap mappings)[k]? = some k' → row[i]? = some weight →
      Delivers allowed
        (Grows (·.Sized newParents newLefts newRights) view new (amount i j k))
        (new.add i' j' k' (weight * old.cell i j k))) :
    Delivers allowed
      (Grows (·.Sized newParents newLefts newRights) view (blank newParents newLefts newRights)
        (∑ i ∈ range parents, ∑ j ∈ range lefts, ∑ k ∈ range rights, amount i j k))
      (old.merge key mappings weights images) := by
  obtain ⟨_, _, _, again, up, first, second⟩ := Production.dimensions_images maps dimensions
  cases newDimensions.symm.trans again
  obtain ⟨foundUp, right, children, rightImages⟩ := Production.childMappings_eq maps dimensions
  have looked {mapping : List Nat} {size new n : Nat} (into : MapsInto mapping size new)
      (inside : n < size) : ∃ image, fetch mapping n = .ok image ∧ mapping[n]? = some image ∧
        image < new := by
    rw [← into.length_eq] at inside
    have found := List.getElem?_eq_getElem inside
    exact ⟨_, fetch_eq_ok_iff.mpr found, found, into.below _ (List.getElem_mem inside)⟩
  simp only [RuleBlock.merge, newDimensions, children, ok_bind, fetch_eq_ok_iff.mpr foundUp,
    fetch_eq_ok_iff.mpr weighted]
  refine (zeros_blank crowded).bind fun start same => ?_
  subst same
  rw [← sized.parents_eq]
  refine Delivers.stepBelow_grows _ (blank_sized newParents newLefts newRights)
    fun new i below newSized => ?_
  rw [sized.parents_eq] at below
  obtain ⟨i', fetched, foundParent, parentBelow⟩ := looked up below
  have weight := List.getElem?_eq_getElem (below.trans_le enough)
  simp only [fetched, ok_bind, fetch_eq_ok_iff.mpr weight, addRow]
  rw [← sized.lefts_eq]
  refine Delivers.stepBelow_grows _ newSized fun new j inLeft newSized => ?_
  rw [sized.lefts_eq] at inLeft
  obtain ⟨j', fetched, foundLeft, leftBelow⟩ := looked first inLeft
  simp only [fetched, ok_bind]
  rw [← sized.rights_eq]
  refine Delivers.stepBelow_grows _ newSized fun new k inRight newSized => ?_
  rw [sized.rights_eq] at inRight
  obtain ⟨k', fetched, foundRight, rightBelow⟩ := looked second inRight
  rw [rightImages k inRight, fetched, ok_bind, sized.get_eq below inLeft inRight, ok_bind]
  exact each new i j k i' j' k' _ newSized below inLeft inRight parentBelow leftBelow rightBelow
    foundParent foundLeft foundRight weight

theorem merge_delivers (fits : old.Fits key substates) (maps : Maps mappings substates images)
    (weighted : ∀ parents, substates[key.parent]? = some parents →
      ∃ row, weights[key.parent]? = some row ∧ parents ≤ row.length)
    (crowded : ∀ parents lefts rights, key.dimensions images = .ok (parents, lefts, rights) →
      (∀ count, cellCount parents lefts rights ≠ .ok count) → allowed .overflow) :
    Delivers allowed (·.Fits key images) (old.merge key mappings weights images) := by
  obtain ⟨parents, lefts, rights, dimensions, sized⟩ := fits
  obtain ⟨newParents, newLefts, newRights, newDimensions, -⟩ :=
    Production.dimensions_images maps dimensions
  obtain ⟨row, found, enough⟩ := weighted parents (Production.parent_of_dimensions dimensions)
  -- nothing is viewed but the sizes
  have grown := merge_grows (fun _ => PUnit.unit) maps dimensions newDimensions sized found
    enough (crowded _ _ _ newDimensions) (fun _ _ _ => PUnit.unit)
    fun new i j k i' j' k' weight newSized _ _ _ parent left right _ _ _ _ =>
      (add_delivers newSized parent left right _).mono fun _ kept => ⟨kept, rfl⟩
  exact grown.mono fun new grows => grows.kept.fits newDimensions

end RuleBlock

/-- The weights of all categories relative to those they are merged with. -/
def relativeRows (mappings : List (List Nat)) (weights : List (List α)) : List (List α) :=
  (mappings.zip weights).map fun (mapping, row) => relativeWeights mapping row

theorem Maps.relativeRows_getElem? (maps : Maps mappings substates images)
    {weights : List (List α)} (enough : substates.length ≤ weights.length) {state size : Nat}
    (found : substates[state]? = some size) :
    ∃ row, weights[state]? = some row ∧
      (relativeRows mappings weights)[state]? =
        some (relativeWeights (mapOf mappings state) row) ∧
      (relativeWeights (mapOf mappings state) row).length = size := by
  obtain ⟨new, present, -, into⟩ := maps.mapsInto found
  have below : state < weights.length :=
    (List.getElem?_eq_some_iff.mp found).1.trans_le enough
  have row := List.getElem?_eq_getElem below
  refine ⟨_, row, ?_, by simp [relativeWeights, into.length_eq]⟩
  rw [relativeRows, List.getElem?_map, zip_getElem? present row]
  rfl

omit [Scalar α] in
theorem Ancestry.merge_delivers {ancestry : Ancestry} {mapping : List Nat} {size new : Nat}
    (fits : ancestry.Fits size) (maps : MapsInto mapping size new)
    (crowded : Word.tableLimit ≤ new → allowed .overflow) :
    Delivers allowed (·.Fits new) (ancestry.merge mapping new) := by
  have known : ancestry.parents.length = size := fits
  apply (delivers_fill_or_overflow crowded).bind
  intro start same
  have length : start.length = new := by simp [same]
  suffices merged : Delivers allowed (fun parents : List (Option Nat) => parents.length = new) _ from
    merged.bind fun parents length => length
  refine Delivers.foldlM length fun merged (image, old) member length => ?_
  obtain ⟨inside, same⟩ := List.getElem?_eq_some_iff.mp (List.mem_zipIdx_iff_getElem?.mp member)
  have below : image < merged.length := by
    rw [length]
    exact maps.below image (List.mem_of_getElem same)
  rw [maps.length_eq, ← known] at inside
  apply (delivers_fetch_below below).bind
  intro parent _
  cases parent with
  | some parent => exact length
  | none => exact (delivers_fetch_below inside).bind fun _ _ => by simpa using length

omit [Scalar α] in
theorem mergeAncestries_delivers {ancestries : List Ancestry}
    (ancestry : List.Forall₂ Ancestry.Fits ancestries substates)
    (maps : Maps mappings substates images)
    (crowded : (∃ size ∈ images, Word.tableLimit ≤ size) → allowed .overflow) :
    Delivers allowed (List.Forall₂ Ancestry.Fits · images)
      (mergeAncestries ancestries mappings images) := by
  obtain ⟨sized, below⟩ := maps
  unfold mergeAncestries
  induction ancestry generalizing mappings images with
  | nil =>
    cases sized
    cases below
    exact .nil
  | cons here _ ih =>
    cases sized with
    | cons length sized =>
      cases below with
      | cons bound below =>
        rw [List.zip_cons_cons, List.zip_cons_cons, List.mapM_cons]
        have first := Ancestry.merge_delivers here ⟨length, bound⟩ fun large =>
          crowded ⟨_, List.mem_cons_self, large⟩
        refine first.bind fun first firstFits => ?_
        refine (ih (fun large => ?_) sized below).bind fun rest restFit => .cons firstFits restFit
        obtain ⟨size, member, large⟩ := large
        exact crowded ⟨size, List.mem_cons_of_mem _ member, large⟩

theorem Grammar.merge_delivers {grammar : Grammar α} {weights : List (List α)}
    {lineages : List Ancestry → Prop} (rules : grammar.rules.Fits grammar.substates)
    (known : mappings.mapM imageSize = .ok images) (maps : Maps mappings grammar.substates images)
    (enough : grammar.substates.length ≤ weights.length)
    (crowded : ¬HasRoom images grammar.rules → allowed .overflow)
    (ancestries : Delivers allowed lineages
      (mergeAncestries grammar.ancestry mappings images)) :
    Delivers allowed (fun merged => merged.substates = images ∧ merged.root = grammar.root ∧
        mergeAncestries grammar.ancestry mappings images = .ok merged.ancestry ∧
        lineages merged.ancestry ∧ merged.rules.Fits images)
      (grammar.merge mappings weights) := by
  simp only [Grammar.merge, known, ok_bind]
  have tables (large : ∃ size ∈ images.take weights.length, Word.tableLimit ≤ size) :
      allowed .overflow := by
    obtain ⟨size, member, large⟩ := large
    exact crowded fun room =>
      absurd (room.sizes size (List.mem_of_mem_take member)) (Nat.not_lt.mpr large)
  apply (delivers_checkSizes tables).bind
  intro _ _
  have blocks (entry : Production × RuleBlock α) (member : entry ∈ grammar.rules.entries) :
      Delivers allowed (·.Fits entry.1 images)
        (entry.2.merge entry.1 mappings (relativeRows mappings weights) images) := by
    refine RuleBlock.merge_delivers (rules entry member) maps (fun parents found => ?_)
      fun parents lefts rights dimensions none => ?_
    · obtain ⟨row, -, present, length⟩ := maps.relativeRows_getElem? enough found
      exact ⟨_, present, length.ge⟩
    · refine crowded fun room => ?_
      obtain ⟨count, counted⟩ := room.blocks entry member parents lefts rights dimensions
      exact none count counted
  refine (RuleCounts.mapScoresM_delivers fun entry member => blocks entry member).bind
    fun rules fits => ?_
  exact ancestries.bind_ok fun ancestry merged holds => ⟨rfl, rfl, merged, holds, fits⟩

/-- What a grammar that has been merged is made of. -/
theorem Grammar.merge_eq_ok {grammar merged : Grammar α} {weights : List (List α)}
    (known : mappings.mapM imageSize = .ok images)
    (done : grammar.merge mappings weights = .ok merged) :
    merged.substates = images ∧ merged.root = grammar.root ∧
      mergeAncestries grammar.ancestry mappings images = .ok merged.ancestry ∧
      grammar.rules.mapScoresM (fun key scores =>
        scores.merge key mappings (relativeRows mappings weights) images) = .ok merged.rules := by
  simp only [Grammar.merge, known, ok_bind] at done
  obtain ⟨-, -, done⟩ := bind_eq_ok_iff.mp done
  obtain ⟨rules, mapped, done⟩ := bind_eq_ok_iff.mp done
  obtain ⟨ancestry, merged, done⟩ := bind_eq_ok_iff.mp done
  obtain rfl := Except.ok.inj done
  exact ⟨rfl, rfl, merged, mapped⟩

theorem mergeCounts_delivers {mapping : List Nat} {size new : Nat} {values : List α}
    (sized : values.length = size) (maps : MapsInto mapping size new) :
    Delivers allowed (·.length = new) (mergeCounts new mapping values) := by
  refine Delivers.foldlM List.length_replicate fun merged (count, old) member length => ?_
  have inside : old < size := by
    rw [← sized]
    exact (List.getElem?_eq_some_iff.mp (List.mem_zipIdx_iff_getElem?.mp member)).1
  apply (maps.fetch inside).bind
  intro image below
  exact (delivers_fetch_below (length ▸ below)).bind fun _ _ => by simpa using length

theorem mergeNames_delivers {table : NameTable (List α)} {mapping : List Nat} {size new : Nat}
    (fits : table.Fits size) (maps : MapsInto mapping size new) :
    Delivers allowed (fun merged : NameTable (List α) => merged.Fits new)
      (table.mapM fun (name, counts) => do return (name, ← mergeCounts new mapping counts)) :=
  Delivers.mapM_forall fun (name, values) member =>
    (mergeCounts_delivers (fits (name, values) member) maps).bind fun _ length => length

theorem mergeTables_delivers {tables : List (NameTable (List α))}
    (fit : List.Forall₂ NameTable.Fits tables substates) (maps : Maps mappings substates images) :
    Delivers allowed (List.Forall₂ NameTable.Fits · images)
      (mergeTables mappings images tables) := by
  obtain ⟨sized, below⟩ := maps
  unfold mergeTables
  induction fit generalizing mappings images with
  | nil =>
    cases sized
    cases below
    exact .nil
  | cons here _ ih =>
    cases sized with
    | cons length sized =>
      cases below with
      | cons bound below =>
        rw [List.zip_cons_cons, List.zip_cons_cons, List.mapM_cons]
        apply (mergeNames_delivers here ⟨length, bound⟩).bind
        intro first firstFits
        exact (ih sized below).bind fun rest restFit => .cons firstFits restFit

/-- A lexicon is merged through the same mappings as a grammar with the same substates. -/
theorem Lexicon.merge_delivers {lexicon : Lexicon α} {ancestry : List Ancestry}
    (tables : lexicon.tables.Fits substates) (known : mappings.mapM imageSize = .ok images)
    (maps : Maps mappings substates images)
    (merged : mergeAncestries lexicon.ancestry mappings images = .ok ancestry)
    (crowded : (∃ size ∈ images, Word.tableLimit ≤ size) → allowed .overflow) :
    Delivers allowed (fun result => result.substates = images ∧ result.root = lexicon.root ∧
        result.ancestry = ancestry ∧ result.tables.Fits images)
      (lexicon.merge mappings) := by
  have length := maps.length_images
  simp only [Lexicon.merge, known, ok_bind]
  apply (delivers_checkSizes crowded).bind
  intro _ _
  rw [fitTables_eq (tables.wordCounts.length_eq.trans length.symm), ok_bind,
    fitTables_eq (tables.unseenSignatureCounts.length_eq.trans length.symm), ok_bind]
  apply (mergeTables_delivers tables.wordCounts maps).bind
  intro words wordsFit
  refine (mergeTables_delivers tables.unseenSignatureCounts maps).bind
    fun signatures signaturesFit => ?_
  rw [merged]
  exact ⟨rfl, rfl, rfl, retable_fits wordsFit signaturesFit⟩

omit [Scalar α] in
/-- A model whose parts are merged through the same mappings is consistent again. -/
theorem Model.Consistent.of_merged {model : Model α} {categories : Nat}
    (consistent : model.Consistent categories root) {grammar : Grammar α} {lexicon : Lexicon α}
    (maps : Maps mappings model.substates images) (single : images[root]? = some 1)
    (substates_eq : grammar.substates = images) (root_eq : grammar.root = model.grammar.root)
    (ancestry : List.Forall₂ Ancestry.Fits grammar.ancestry images) (rules : grammar.rules.Fits images)
    (lexiconSubstates_eq : lexicon.substates = images)
    (lexiconRoot_eq : lexicon.root = model.lexicon.root)
    (ancestry_eq : lexicon.ancestry = grammar.ancestry) (tables : lexicon.tables.Fits images) :
    Model.Consistent ⟨grammar, lexicon⟩ categories root := by
  subst substates_eq
  exact {
    categories_eq := maps.length_images.trans consistent.categories_eq
    root_eq := root_eq.trans consistent.root_eq
    single
    positive := maps.images_positive consistent.positive
    ancestry
    rules
    substates_eq := lexiconSubstates_eq
    lexiconRoot_eq := lexiconRoot_eq.trans (consistent.lexiconRoot_eq.trans root_eq.symm)
    ancestry_eq
    tables := lexiconSubstates_eq.symm ▸ tables }

theorem Model.Consistent.merge {model : Model α} {categories : Nat}
    (consistent : model.Consistent categories root) {selected : List (SiblingPair α)}
    (fits : ∀ pair ∈ selected, pair.Fits model.substates root) {weights : List (List α)}
    (weighted : List.Forall₂ HasSize weights model.substates) (overflow : allowed .overflow) :
    Delivers allowed (·.Consistent categories root) (model.merge selected weights) := by
  apply (collapseMaps_delivers consistent.single fits overflow).bind
  intro mappings fits
  -- the sizes of the images first, as grammar and lexicon both compute them
  cases known : mappings.mapM imageSize with
  | error fault =>
    have reach := mapM_imageSize_delivers fits overflow
    rw [known] at reach
    rw [Model.collapse, Grammar.merge, known]
    exact reach
  | ok images =>
    have reach : ImagesFit mappings images root :=
      (mapM_imageSize_delivers fits any_overflow).of_ok known
    have maps := fits.maps reach
    refine (Grammar.merge_delivers consistent.rules known maps weighted.length_eq.ge
      (fun _ => overflow) (mergeAncestries_delivers consistent.ancestry maps fun _ => overflow)).bind
      fun grammar result => ?_
    obtain ⟨substates, sameRoot, merged, ancestry, rules⟩ := result
    rw [← consistent.ancestry_eq] at merged
    have tables := consistent.tables
    rw [consistent.substates_eq] at tables
    refine (Lexicon.merge_delivers tables known maps merged fun _ => overflow).bind
      fun lexicon result => ?_
    obtain ⟨lexiconSubstates, lexiconRoot, lexiconAncestry, lexiconTables⟩ := result
    exact consistent.of_merged maps reach.root substates sameRoot ancestry rules lexiconSubstates
      lexiconRoot lexiconAncestry lexiconTables

end LatentGrammar
