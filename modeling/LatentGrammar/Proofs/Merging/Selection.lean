import LatentGrammar.Proofs.Consistency.Run
import LatentGrammar.Proofs.Merging.Lineages
import LatentGrammar.Proofs.Merging.Room

namespace LatentGrammar

variable {α : Type} {allowed : Fault → Prop} {substates images : List Nat}
  {mappings : List (List Nat)} {root categories : Nat}

/-- The ancestries of all categories after a merge, each made through its category's mapping. -/
structure InheritAll (merged ancestries : List Ancestry) (mappings : List (List Nat))
    (substates : List Nat) (selected : List (SiblingPair α)) : Prop where
  length_eq : merged.length = ancestries.length
  inherits : ∀ (state : Nat) ancestry size, ancestries[state]? = some ancestry →
    substates[state]? = some size → ∃ mapping result,
      mappings[state]? = some mapping ∧ merged[state]? = some result ∧
      Collapses mapping size (SiblingPair.pairsOf state selected) ∧
      ancestry.merge mapping (size - (SiblingPair.pairsOf state selected).length) = .ok result ∧
      result.Inherits ancestry mapping (size - (SiblingPair.pairsOf state selected).length)

theorem mergeAncestries_inherits {ancestries : List Ancestry} {selected : List (SiblingPair α)}
    (relabels : Relabels mappings substates selected)
    (fit : List.Forall₂ Ancestry.Fits ancestries substates)
    (complete : ∀ ancestry ∈ ancestries, ancestry.Complete)
    (crowded : (∃ size ∈ remaining substates selected, Word.tableLimit ≤ size) → allowed .overflow) :
    Delivers allowed (InheritAll · ancestries mappings substates selected)
      (mergeAncestries ancestries mappings (remaining substates selected)) := by
  have each (entry : Ancestry × List Nat × Nat)
      (member : entry ∈ ancestries.zip (mappings.zip (remaining substates selected))) :
      Delivers allowed (fun result => entry.1.merge entry.2.1 entry.2.2 = .ok result ∧
          result.Inherits entry.1 entry.2.1 entry.2.2) (entry.1.merge entry.2.1 entry.2.2) := by
    obtain ⟨state, found⟩ := List.getElem?_of_mem member
    obtain ⟨present, both⟩ := List.getElem?_zip_eq_some.mp found
    obtain ⟨mapped, left⟩ := List.getElem?_zip_eq_some.mp both
    obtain ⟨size, known, collapses⟩ := relabels.size_of mapped
    have new := Option.some.inj (left.symm.trans (remaining_getElem? known))
    have sized := relation_of_forall₂ fit present known
    have maps : MapsOnto entry.2.1 size entry.2.2 := new ▸ collapses.maps
    exact (Ancestry.merge_inherits sized (complete _ (List.mem_of_getElem? present)) maps
      fun large => crowded ⟨_, List.mem_of_getElem? left, large⟩).mono_ok
      fun result done inherits => ⟨done, inherits⟩
  refine (Delivers.mapM each).mono fun merged all => ⟨?_, fun state ancestry size present known => ?_⟩
  · rw [← all.length_eq]
    simp [relabels.length_eq, length_remaining, fit.length_eq]
  · obtain ⟨mapping, mapped, collapses⟩ := relabels.of_size known
    have left : (remaining substates selected)[state]? = _ := remaining_getElem? known
    have entry := zip_getElem? present (zip_getElem? mapped left)
    obtain ⟨result, found, done, inherits⟩ := exists_of_forall₂ all.flip entry
    exact ⟨mapping, result, mapped, found, collapses, done, inherits⟩

namespace InheritAll

variable {merged ancestries : List Ancestry} {selected : List (SiblingPair α)}
  (all : InheritAll merged ancestries mappings substates selected)
  (fit : List.Forall₂ Ancestry.Fits ancestries substates)

include all fit

theorem fits : List.Forall₂ Ancestry.Fits merged (remaining substates selected) := by
  refine forall₂_of_getElem? ?_ fun state result new here left => ?_
  · rw [all.length_eq, length_remaining, fit.length_eq]
  · have below : state < ancestries.length :=
      all.length_eq ▸ (List.getElem?_eq_some_iff.mp here).1
    have present := List.getElem?_eq_getElem below
    obtain ⟨size, found, -⟩ := exists_of_forall₂ fit.flip present
    obtain ⟨_, again, -, there, -, -, result⟩ := all.inherits state _ size present found
    cases here.symm.trans there
    obtain rfl := Option.some.inj (left.symm.trans (remaining_getElem? found))
    exact result.fits

theorem eq_of_single {state : Nat} (single : substates[state]? = some 1)
    (unpaired : SiblingPair.pairsOf state selected = []) : merged[state]? = ancestries[state]? := by
  obtain ⟨ancestry, found, sized⟩ := exists_of_forall₂ fit single
  obtain ⟨mapping, result, -, here, collapses, -, inherited⟩ := all.inherits state ancestry 1 found single
  rw [unpaired] at collapses inherited
  rw [found, ← inherited.eq_of_single collapses sized]
  exact here

end InheritAll

namespace Model

/-- Siblings that may be merged: those of a category that is not the root. -/
def Offers (model : Model α) (state first second : Nat) : Prop :=
  state ≠ model.grammar.root ∧ ∃ ancestry, model.grammar.ancestry[state]? = some ancestry ∧
    ancestry.Neighbours first second

variable [Scalar α]

theorem place_mem_mergeCandidates_iff {model : Model α} {state first second : Nat} :
    (state, first, second) ∈ model.mergeCandidates.map SiblingPair.place ↔
      model.Offers state first second := by
  simp only [mergeCandidates, List.mem_map, List.mem_flatMap, Prod.exists,
    List.mem_zipIdx_iff_getElem?, Offers]
  constructor
  · rintro ⟨pair, ⟨ancestry, number, found, offered⟩, place⟩
    split at offered
    · exact absurd offered List.not_mem_nil
    · rename_i other
      obtain ⟨⟨one, two⟩, member, rfl⟩ := List.mem_map.mp offered
      obtain ⟨rfl, rfl, rfl⟩ : number = state ∧ one = first ∧ two = second := by
        simpa [SiblingPair.place] using place
      exact ⟨by simpa using other, ancestry, found, Ancestry.mem_pairs_iff.mp member⟩
  · rintro ⟨other, ancestry, found, neighbours⟩
    refine ⟨⟨state, first, second, 0⟩, ⟨ancestry, state, found, ?_⟩, rfl⟩
    rw [if_neg (by simpa using other)]
    exact List.mem_map.mpr ⟨(first, second), Ancestry.mem_pairs_iff.mpr neighbours, rfl⟩

omit [Scalar α] in
theorem nodup_places {candidates : List (SiblingPair α)}
    (disjoint : ∀ state, DisjointPairs (SiblingPair.pairsOf state candidates)) :
    (candidates.map SiblingPair.place).Nodup := by
  rw [List.nodup_iff_sublist]
  rintro ⟨state, pair⟩ twice
  have both : [pair, pair].Sublist (SiblingPair.pairsOf state candidates) := by
    have kept := (twice.filter (·.1 == state)).map (·.2)
    simpa [SiblingPair.pairsOf_eq] using kept
  have apart := ((disjoint state).apart.sublist both)
  obtain ⟨here, -⟩ := List.pairwise_cons.mp apart
  exact (here pair (by simp)).1 rfl

/-- Some of the pairs of a category's ancestry have been selected. -/
theorem pairsOf_subperm {model : Model α} {selected : List (SiblingPair α)}
    (chosen : (selected.map SiblingPair.place).Subperm (model.mergeCandidates.map SiblingPair.place))
    {state : Nat} {ancestry : Ancestry} (found : model.grammar.ancestry[state]? = some ancestry) :
    (SiblingPair.pairsOf state selected).Subperm ancestry.pairs := by
  have disjoint := SiblingPair.disjoint_of_subperm chosen (model.mergeCandidates_disjoint state)
  have nodup : (SiblingPair.pairsOf state selected).Nodup := by
    refine disjoint.apart.imp fun apart same => ?_
    exact apart.1 (congrArg Prod.fst same)
  refine nodup.subperm ?_
  rintro ⟨first, second⟩ member
  obtain ⟨candidate, filtered, place⟩ := List.mem_map.mp member
  obtain ⟨present, same⟩ := List.mem_filter.mp filtered
  obtain ⟨rfl, rfl⟩ := Prod.mk.inj place
  obtain rfl : candidate.state = state := by simpa using same
  have offered := place_mem_mergeCandidates_iff.mp (chosen.subset (List.mem_map_of_mem present))
  obtain ⟨-, again, there, neighbours⟩ := offered
  cases found.symm.trans there
  exact Ancestry.mem_pairs_iff.mpr neighbours

/-- What merging the selected pairs makes of a model. Every category loses as many substates as pairs
of it were selected, in grammar and lexicon alike; each class keeps the parent of its lowest member,
and the root is as it was. -/
structure MergedAs (merged model : Model α) (mappings : List (List Nat))
    (selected : List (SiblingPair α)) (root : Nat) : Prop where
  sizes : merged.grammar.substates = remaining model.substates selected
  lexiconSizes : merged.lexicon.substates = remaining model.substates selected
  ancestry_eq : merged.lexicon.ancestry = merged.grammar.ancestry
  length_eq : merged.grammar.ancestry.length = model.grammar.ancestry.length
  lineages : ∀ (state : Nat) ancestry, model.grammar.ancestry[state]? = some ancestry →
    ∃ mapping result, mappings[state]? = some mapping ∧
      merged.grammar.ancestry[state]? = some result ∧ result.Complete ∧ result.Reached ∧
      ∀ s image, mapping[s]? = some image → Lowest (SiblingPair.pairsOf state selected) s →
        result.parents[image]? = ancestry.parents[s]?
  root_eq : merged.grammar.root = model.grammar.root
  lexiconRoot_eq : merged.lexicon.root = model.lexicon.root
  rootSize : merged.grammar.substates[root]? = model.grammar.substates[root]?
  rootAncestry : merged.grammar.ancestry[root]? = model.grammar.ancestry[root]?

variable {model : Model α} {selected : List (SiblingPair α)} {weights : List (List α)}

theorem fits_of_places (consistent : model.Consistent categories root)
    (chosen : (selected.map SiblingPair.place).Subperm (model.mergeCandidates.map SiblingPair.place)) :
    ∀ pair ∈ selected, pair.Fits model.substates root := by
  intro pair member
  obtain ⟨candidate, offered, place⟩ :=
    List.mem_map.mp (chosen.subset (List.mem_map_of_mem member))
  have fits := mergeCandidates_fit consistent candidate offered
  obtain ⟨state, pairs⟩ := Prod.mk.inj place
  obtain ⟨first, second⟩ := Prod.mk.inj pairs
  exact ⟨state ▸ fits.state_ne, state ▸ fits.known, fun size known =>
    first ▸ second ▸ fits.inside size (state ▸ known)⟩

/-- Any of the candidates, in any order, are merged as they should be. -/
theorem merge_merged (consistent : model.Consistent categories root)
    (reached : ∀ ancestry ∈ model.grammar.ancestry, ancestry.Reached)
    (chosen : (selected.map SiblingPair.place).Subperm (model.mergeCandidates.map SiblingPair.place))
    (enough : model.substates.length ≤ weights.length) :
    Delivers model.grammar.Cramped (fun merged => merged.Consistent categories root ∧
        ∃ mappings, collapseMaps model.substates selected = .ok mappings ∧
          merged.MergedAs model mappings selected root)
      (model.merge selected weights) := by
  have fits := fits_of_places consistent chosen
  have unpaired : SiblingPair.pairsOf root selected = [] := by
    rw [SiblingPair.pairsOf, List.filter_eq_nil_iff.mpr, List.map_nil]
    exact fun pair member same => (fits pair member).state_ne (by simpa using same)
  have single : (remaining model.substates selected)[root]? = some 1 := by
    have left : (remaining model.substates selected)[root]? = _ :=
      remaining_getElem? consistent.single
    rwa [unpaired, List.length_nil] at left
  have crowded {sizes : List Nat} (fewer : List.Forall₂ (· ≤ ·) sizes model.substates)
      (large : ∃ size ∈ sizes, Word.tableLimit ≤ size) : model.grammar.Cramped .overflow :=
    ⟨rfl, fun room => not_crowded (room.mono fewer).sizes large⟩
  refine (collapseMaps_relabels
    (fun state => SiblingPair.disjoint_of_subperm chosen (model.mergeCandidates_disjoint state))
    (fun pair member => (fits pair member).inside)
    Grammar.cramped_of_large).bind_ok fun mappings mapped holds => ?_
  obtain ⟨relabels, room⟩ := holds
  have fewer := relabels.onto.fewer
  have known : mappings.mapM imageSize = .ok (remaining model.substates selected) :=
    delivers_never_ok (relabels.onto.mapM_imageSize (not_crowded room))
  have ancestries := mergeAncestries_inherits relabels consistent.ancestry
    (fun ancestry member => (reached ancestry member).complete) (crowded fewer)
  refine (Grammar.merge_delivers consistent.rules known relabels.onto.maps enough
    (fun cramped => ⟨rfl, fun room => cramped (room.mono fewer)⟩) ancestries).bind
    fun grammar holds => ?_
  obtain ⟨sizes, root_eq, merged, all, rules⟩ := holds
  rw [← consistent.ancestry_eq] at merged
  have tables := consistent.tables
  rw [consistent.substates_eq] at tables
  refine (Lexicon.merge_delivers tables known relabels.onto.maps merged (crowded fewer)).bind
    fun lexicon holds => ?_
  obtain ⟨lexiconSizes, lexiconRoot, same, tables⟩ := holds
  refine ⟨consistent.of_merged relabels.onto.maps single sizes root_eq
    (all.fits consistent.ancestry) rules lexiconSizes lexiconRoot same tables, mappings, mapped, ?_⟩
  refine ⟨sizes, lexiconSizes, same, all.length_eq, fun state ancestry found => ?_, root_eq,
    lexiconRoot, ?_, all.eq_of_single consistent.ancestry consistent.single unpaired⟩
  · obtain ⟨size, known, sized⟩ := exists_of_forall₂ consistent.ancestry.flip found
    obtain ⟨mapping, result, there, here, collapses, done, inherited⟩ :=
      all.inherits state ancestry size found known
    refine ⟨mapping, result, there, here, inherited.complete, ?_, fun s image image_eq low =>
      inherited.lowest s image (Ancestry.first_of_lowest collapses low image_eq)⟩
    obtain ⟨again, sameSize, collapsed⟩ := (collapseMaps_eq_ok mapped).2 state mapping there
    cases known.symm.trans sameSize
    have sizedBack : ancestry.size = size := sized
    rw [← sizedBack] at collapsed
    exact .merge (reached ancestry (List.mem_of_getElem? found)) (pairsOf_subperm chosen found)
      collapsed (collapses.maps.imageSize_eq (room size (List.mem_of_getElem? known))) done
  · rw [show (⟨grammar, lexicon⟩ : Model α).grammar.substates = _ from sizes, single]
    exact consistent.single.symm

/-- Selected merges are disjoint and applied exactly. The losses are reckoned for the sibling pairs of
all categories but the root, each of them once. Whatever is selected among them, categories are
mapped so that just the selected pairs share an image, and the model is merged accordingly. Any
disjoint pairs of substates that are there are mapped in this way, next to each other or not. -/
theorem merges_selected_pairs [TotalOrder α] (consistent : model.Consistent categories root)
    (reached : ∀ ancestry ∈ model.grammar.ancestry, ancestry.Reached) {forest : Forest α}
    (fits : forest.Fits model.substates) (weighted : List.Forall₂ HasSize weights model.substates) :
    (∃ candidates, (Training.Pass.ofSweep forest (model.mergeLosses forest weights)).2 =
        .ok candidates ∧
      (candidates.map SiblingPair.place).Nodup ∧
      (∀ state first second, (state, first, second) ∈ candidates.map SiblingPair.place ↔
        model.Offers state first second) ∧
      ∀ (separate : Bool) (share : α) (lexical : List Bool),
        Delivers model.grammar.Cramped
          (Relabels · model.substates (SiblingPair.select separate share lexical candidates))
          (collapseMaps model.substates (SiblingPair.select separate share lexical candidates)) ∧
        Delivers model.grammar.Cramped (fun merged => merged.Consistent categories root ∧
            ∃ mappings,
              collapseMaps model.substates (SiblingPair.select separate share lexical candidates) =
                .ok mappings ∧
              merged.MergedAs model mappings
                (SiblingPair.select separate share lexical candidates) root)
          (model.merge (SiblingPair.select separate share lexical candidates) weights)) ∧
    ∀ (sizes : List Nat) (pairs : List (SiblingPair α)),
      (∀ state, DisjointPairs (SiblingPair.pairsOf state pairs)) →
      (∀ pair ∈ pairs, ∀ size, sizes[pair.state]? = some size →
        pair.first < size ∧ pair.second < size) →
      Delivers (fun fault => fault = .overflow ∧ ∃ size ∈ sizes, Word.tableLimit ≤ size)
        (Relabels · sizes pairs) (collapseMaps sizes pairs) := by
  refine ⟨?_, fun sizes pairs disjoint inside => ?_⟩
  · obtain ⟨candidates, done, -⟩ :=
      delivers_never_iff.mp (mergeLosses_sound consistent fits weighted).2
    have places := (mergeLosses_places model forest weights).of_ok done
    refine ⟨candidates, done, ?_, fun state first second => ?_, fun separate share lexical => ?_⟩
    · rw [places]
      exact nodup_places model.mergeCandidates_disjoint
    · rw [places]
      exact place_mem_mergeCandidates_iff
    · have chosen := SiblingPair.select_places separate share lexical candidates
      rw [places] at chosen
      have present := fits_of_places consistent chosen
      refine ⟨?_, merge_merged consistent reached chosen weighted.length_eq.ge⟩
      exact (collapseMaps_relabels (fun state => SiblingPair.disjoint_of_subperm chosen
        (model.mergeCandidates_disjoint state)) (fun pair member => (present pair member).inside)
        Grammar.cramped_of_large).mono fun mappings holds => holds.1
  · exact (collapseMaps_relabels disjoint inside fun large => ⟨rfl, large⟩).mono
      fun mappings holds => holds.1

theorem sampleModel_reached : ∀ ancestry ∈ sampleModel.grammar.ancestry, ancestry.Reached := by
  have uniform (count : Nat) (room : count < Word.tableLimit) :
      Ancestry.Reached ⟨List.replicate count (some 0)⟩ := by
    have made : Ancestry.uniform count = .ok ⟨List.replicate count (some 0)⟩ := by
      rw [Ancestry.uniform, fill_eq_ok_iff.mpr ⟨room, rfl⟩]
      rfl
    exact .uniform made
  simp only [sampleModel, List.forall_mem_cons]
  exact ⟨uniform 1 (by decide), uniform 2 (by decide), by simp⟩

theorem sampleModel_merges_selected_pairs :
    ∃ candidates merged,
      (Training.Pass.ofSweep ⟨[sampleTree], [1, 2]⟩
        (sampleModel.mergeLosses ⟨[sampleTree], [1, 2]⟩ [[1], [1, 3]])).2 = .ok candidates ∧
      candidates.map SiblingPair.place = [(1, 0, 1)] ∧
      sampleModel.merge (SiblingPair.select false (1 : Rat) [] candidates) [[1], [1, 3]] = .ok merged ∧
      merged.grammar.substates = [1, 1] ∧ merged.lexicon.substates = [1, 1] := by
  have fits : Forest.Fits ⟨[sampleTree], [1, 2]⟩ sampleModel.substates :=
    ⟨rfl, by simpa using sampleTree_fits⟩
  have weighted : List.Forall₂ HasSize [[(1 : Rat)], [1, 3]] sampleModel.substates :=
    .cons rfl (.cons rfl .nil)
  obtain ⟨⟨candidates, done, -, -, all⟩, -⟩ :=
    merges_selected_pairs Training.Run.sampleModel_consistent sampleModel_reached fits weighted
  have places : candidates.map SiblingPair.place = [(1, 0, 1)] :=
    (mergeLosses_places sampleModel _ _).of_ok done
  obtain ⟨candidate, rfl⟩ := List.length_eq_one_iff.mp (by simpa using congrArg List.length places)
  have whole : SiblingPair.select false (1 : Rat) [] [candidate] = [candidate] := by
    have one : SiblingPair.budget (1 : Rat) 1 = 1 := by decide +kernel
    simp [SiblingPair.select, SiblingPair.cheapest, one]
  have merges := (all false (1 : Rat) []).2
  rw [whole] at merges
  cases merged : sampleModel.merge [candidate] [[1], [1, 3]] with
  | error fault =>
    rw [merged] at merges
    exact absurd sampleModel_room merges.2
  | ok result =>
    rw [merged] at merges
    obtain ⟨-, mappings, -, as⟩ := merges
    have left : remaining sampleModel.substates [candidate] = [1, 1] := by
      have state : candidate.state = 1 := congrArg Prod.fst (List.singleton_inj.mp places)
      simp [remaining, SiblingPair.pairsOf, state, substates, sampleModel]
    exact ⟨[candidate], result, done, places, by rw [whole, merged], as.sizes.trans left,
      as.lexiconSizes.trans left⟩

end Model

end LatentGrammar
