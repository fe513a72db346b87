import LatentGrammar.Proofs.Merging.Numbering
import LatentGrammar.Proofs.Scoring.Derivation

namespace LatentGrammar

variable {α : Type} {allowed : Fault → Prop} {substates images : List Nat}
  {mappings : List (List Nat)}

namespace RuleBlock

theorem cellCount_eq_ok_iff {parents lefts rights count : Nat} :
    cellCount parents lefts rights = .ok count ↔
      parents * lefts < Word.limit ∧ parents * lefts * rights < Word.tableLimit ∧
        parents * lefts * rights = count := by
  have words : Word.tableLimit < Word.limit := by decide
  unfold cellCount
  constructor
  · intro done
    obtain ⟨rows, small, done⟩ := bind_eq_ok_iff.mp done
    obtain ⟨narrow, rfl⟩ := word_eq_ok_iff.mp small
    obtain ⟨cells, counted, done⟩ := bind_eq_ok_iff.mp done
    obtain ⟨-, rfl⟩ := word_eq_ok_iff.mp counted
    split at done
    · exact ⟨narrow, ‹_›, Except.ok.inj done⟩
    · cases done
  · rintro ⟨narrow, few, rfl⟩
    rw [word_eq_ok_iff.mpr ⟨narrow, rfl⟩, ok_bind, word_eq_ok_iff.mpr ⟨few.trans words, rfl⟩, ok_bind,
      if_pos few]
    rfl

theorem cellCount_mono {parents lefts rights parents' lefts' rights' count : Nat}
    (room : cellCount parents lefts rights = .ok count) (parent : parents' ≤ parents)
    (left : lefts' ≤ lefts) (right : rights' ≤ rights) :
    ∃ fewer, cellCount parents' lefts' rights' = .ok fewer := by
  obtain ⟨narrow, few, -⟩ := cellCount_eq_ok_iff.mp room
  have rows : parents' * lefts' ≤ parents * lefts := Nat.mul_le_mul parent left
  exact ⟨_, cellCount_eq_ok_iff.mpr ⟨rows.trans_lt narrow, (Nat.mul_le_mul rows right).trans_lt few,
    rfl⟩⟩

end RuleBlock

theorem Production.dimensions_le (fewer : List.Forall₂ (· ≤ ·) images substates) {key : Production}
    {parents lefts rights : Nat} (dimensions : key.dimensions images = .ok (parents, lefts, rights)) :
    ∃ parents' lefts' rights', key.dimensions substates = .ok (parents', lefts', rights') ∧
      parents ≤ parents' ∧ lefts ≤ lefts' ∧ rights ≤ rights' := by
  cases key with
  | unary parent child =>
    obtain ⟨foundParent, foundChild, rfl⟩ := dimensions_unary_iff.mp dimensions
    obtain ⟨parents', parentAgain, parent⟩ := exists_of_forall₂ fewer.flip foundParent
    obtain ⟨lefts', childAgain, child⟩ := exists_of_forall₂ fewer.flip foundChild
    exact ⟨_, _, 1, dimensions_unary_iff.mpr ⟨parentAgain, childAgain, rfl⟩, parent, child, le_rfl⟩
  | binary parent left right =>
    obtain ⟨foundParent, foundLeft, foundRight⟩ := dimensions_binary_iff.mp dimensions
    obtain ⟨parents', parentAgain, parent⟩ := exists_of_forall₂ fewer.flip foundParent
    obtain ⟨lefts', leftAgain, left⟩ := exists_of_forall₂ fewer.flip foundLeft
    obtain ⟨rights', rightAgain, right⟩ := exists_of_forall₂ fewer.flip foundRight
    exact ⟨_, _, _, dimensions_binary_iff.mpr ⟨parentAgain, leftAgain, rightAgain⟩, parent, left,
      right⟩

theorem HasRoom.nil (sizes : ∀ size ∈ substates, size < Word.tableLimit) :
    HasRoom substates (⟨[]⟩ : RuleTable α) :=
  ⟨sizes, by simp⟩

theorem HasRoom.cons {key : Production} {block : RuleBlock α}
    {entries : List (Production × RuleBlock α)} {parents lefts rights count : Nat}
    (dimensions : key.dimensions substates = .ok (parents, lefts, rights))
    (counted : RuleBlock.cellCount parents lefts rights = .ok count)
    (rest : HasRoom substates (⟨entries⟩ : RuleTable α)) :
    HasRoom substates ⟨(key, block) :: entries⟩ := by
  refine ⟨rest.sizes, List.forall_mem_cons.mpr ⟨fun _ _ _ again => ?_, rest.blocks⟩⟩
  cases dimensions.symm.trans again
  exact ⟨count, counted⟩

theorem HasRoom.mono {rules : RuleTable α} (room : HasRoom substates rules)
    (fewer : List.Forall₂ (· ≤ ·) images substates) : HasRoom images rules := by
  constructor
  · intro size member
    obtain ⟨state, found⟩ := List.getElem?_of_mem member
    obtain ⟨old, again, le⟩ := exists_of_forall₂ fewer.flip found
    exact Nat.lt_of_le_of_lt le (room.sizes old (List.mem_of_getElem? again))
  · intro entry member parents lefts rights dimensions
    obtain ⟨_, _, _, old, parent, left, right⟩ := Production.dimensions_le fewer dimensions
    obtain ⟨count, counted⟩ := room.blocks entry member _ _ _ old
    exact RuleBlock.cellCount_mono counted parent left right

/-- Room is a matter of the rules that there are, not of their scores. -/
theorem HasRoom.of_keys {rules other : RuleTable α} (room : HasRoom substates rules)
    (same : other.entries.map Prod.fst = rules.entries.map Prod.fst) : HasRoom substates other := by
  refine ⟨room.sizes, fun entry member => ?_⟩
  have key := List.mem_map_of_mem (f := Prod.fst) member
  rw [same] at key
  obtain ⟨old, present, again⟩ := List.mem_map.mp key
  rw [← again]
  exact room.blocks old present

theorem sampleModel_room : HasRoom sampleModel.grammar.substates sampleModel.grammar.rules :=
  .cons rfl rfl (.cons rfl rfl (.nil (by decide)))

/-- The fault of running out of room, where there is none for a grammar's own tables. -/
def Grammar.Cramped (grammar : Grammar α) (fault : Fault) : Prop :=
  fault = .overflow ∧ ¬HasRoom grammar.substates grammar.rules

theorem not_crowded (room : ∀ size ∈ substates, size < Word.tableLimit) :
    ¬∃ size ∈ substates, Word.tableLimit ≤ size := by
  rintro ⟨size, member, large⟩
  exact Nat.not_lt.mpr large (room size member)

theorem Grammar.cramped_of_large {grammar : Grammar α}
    (large : ∃ size ∈ grammar.substates, Word.tableLimit ≤ size) : grammar.Cramped .overflow :=
  ⟨rfl, fun room => not_crowded room.sizes large⟩

/-- The mapping of every category is one onto as many substates as it has images. -/
structure OntoMaps (mappings : List (List Nat)) (substates images : List Nat) : Prop where
  length_eq : mappings.length = substates.length
  images_eq : images.length = substates.length
  onto : ∀ (state : Nat) mapping size new, mappings[state]? = some mapping →
    substates[state]? = some size → images[state]? = some new → MapsOnto mapping size new

theorem OntoMaps.nil : OntoMaps [] [] [] := ⟨rfl, rfl, fun _ _ _ _ here => by cases here⟩

theorem OntoMaps.cons {mapping : List Nat} {size new : Nat} (first : MapsOnto mapping size new)
    (rest : OntoMaps mappings substates images) :
    OntoMaps (mapping :: mappings) (size :: substates) (new :: images) where
  length_eq := congrArg (· + 1) rest.length_eq
  images_eq := congrArg (· + 1) rest.images_eq
  onto := by
    rintro (_ | state) mapping size new here found image
    · cases here; cases found; cases image
      exact first
    · exact rest.onto state mapping size new here found image

theorem MapsOnto.imageSize_delivers {mapping : List Nat} {old new : Nat}
    (maps : MapsOnto mapping old new) (crowded : Word.tableLimit ≤ old → allowed .overflow) :
    Delivers allowed (· = new) (imageSize mapping) := by
  by_cases room : old < Word.tableLimit
  · rw [maps.imageSize_eq room]
    rfl
  · rw [maps.imageSize_eq_word]
    exact delivers_word (crowded (Nat.le_of_not_lt room))

namespace OntoMaps

variable (onto : OntoMaps mappings substates images)

include onto

/-- What is known of the mapping with a given number. -/
theorem of_mapping {state : Nat} {mapping : List Nat} (found : mappings[state]? = some mapping) :
    ∃ size new, substates[state]? = some size ∧ images[state]? = some new ∧
      MapsOnto mapping size new := by
  have below : state < substates.length := by
    rw [← onto.length_eq]
    exact (List.getElem?_eq_some_iff.mp found).1
  have size := List.getElem?_eq_getElem below
  have new := List.getElem?_eq_getElem (onto.images_eq.symm ▸ below)
  exact ⟨_, _, size, new, onto.onto state mapping _ _ found size new⟩

/-- The mapping of a category with a given number of substates. -/
theorem of_size {state size : Nat} (found : substates[state]? = some size) :
    ∃ new, mappings[state]? = some (mapOf mappings state) ∧ images[state]? = some new ∧
      MapsOnto (mapOf mappings state) size new := by
  have below : state < mappings.length := by
    rw [onto.length_eq]
    exact (List.getElem?_eq_some_iff.mp found).1
  have present := List.getElem?_eq_getElem below
  obtain ⟨size, new, again, known, maps⟩ := onto.of_mapping present
  cases found.symm.trans again
  rw [mapOf, present, Option.getD_some]
  exact ⟨new, rfl, known, maps⟩

theorem maps : Maps mappings substates images := by
  constructor
  · refine forall₂_of_getElem? onto.length_eq fun state mapping size here found => ?_
    obtain ⟨_, new, again, -, maps⟩ := onto.of_mapping here
    cases found.symm.trans again
    exact maps.length_eq
  · refine forall₂_of_getElem? (onto.length_eq.trans onto.images_eq.symm)
      fun state mapping new here found image => ?_
    obtain ⟨size, _, -, again, maps⟩ := onto.of_mapping here
    cases found.symm.trans again
    exact (maps.onto image).mp

theorem fewer : List.Forall₂ (· ≤ ·) images substates := by
  refine forall₂_of_getElem? onto.images_eq fun state new size here found => ?_
  obtain ⟨_, -, again, maps⟩ := onto.of_size found
  cases here.symm.trans again
  exact maps.new_le

theorem mapM_imageSize (crowded : (∃ size ∈ substates, Word.tableLimit ≤ size) →
      allowed .overflow) : Delivers allowed (· = images) (mappings.mapM imageSize) := by
  have each (mapping : List Nat) (member : mapping ∈ mappings) :
      Delivers allowed (fun value => ∀ size new, MapsOnto mapping size new → value = new)
        (imageSize mapping) := by
    obtain ⟨state, found⟩ := List.getElem?_of_mem member
    obtain ⟨size, new, known, -, maps⟩ := onto.of_mapping found
    refine (maps.imageSize_delivers fun large =>
      crowded ⟨size, List.mem_of_getElem? known, large⟩).mono fun value same size' new' maps' => ?_
    subst same
    refine Nat.le_antisymm (Nat.le_of_not_lt fun less => ?_) (Nat.le_of_not_lt fun less => ?_)
    · exact absurd ((maps'.onto new').mp ((maps.onto new').mpr less)) (Nat.lt_irrefl _)
    · exact absurd ((maps.onto value).mp ((maps'.onto value).mpr less)) (Nat.lt_irrefl _)
  refine (Delivers.mapM each).mono fun values all => ?_
  have same : List.Forall₂ (· = ·) values images := by
    refine forall₂_of_getElem? ?_ fun state value new here found => ?_
    · rw [← all.length_eq, onto.length_eq, onto.images_eq]
    · obtain ⟨mapping, present, unique⟩ := exists_of_forall₂ all here
      obtain ⟨size, _, -, again, maps⟩ := onto.of_mapping present
      cases found.symm.trans again
      exact unique size new maps
  exact List.forall₂_eq_eq_eq ▸ same

variable [Scalar α] {grammar : Grammar α} {weights : List (List α)}

omit onto in
theorem merge_delivers (onto : OntoMaps mappings grammar.substates images)
    (rules : grammar.rules.Fits grammar.substates)
    (ancestry : List.Forall₂ Ancestry.Fits grammar.ancestry grammar.substates)
    (enough : grammar.substates.length ≤ weights.length) :
    Delivers grammar.Cramped (fun merged => merged.substates = images ∧
        merged.root = grammar.root ∧ mappings.mapM imageSize = .ok images ∧
        List.Forall₂ Ancestry.Fits merged.ancestry images ∧ merged.rules.Fits images)
      (grammar.merge mappings weights) := by
  have crowded (cramped : ¬HasRoom images grammar.rules) : grammar.Cramped .overflow :=
    ⟨rfl, fun room => cramped (room.mono onto.fewer)⟩
  have sizes : Delivers grammar.Cramped (· = images) (mappings.mapM imageSize) :=
    onto.mapM_imageSize Grammar.cramped_of_large
  cases known : mappings.mapM imageSize with
  | error fault =>
    rw [known] at sizes
    rw [Grammar.merge, known]
    exact sizes
  | ok reached =>
    rw [known] at sizes
    obtain rfl : reached = images := sizes
    refine (Grammar.merge_delivers rules known onto.maps enough crowded
      (mergeAncestries_delivers ancestry onto.maps fun large => crowded fun room =>
        not_crowded room.sizes large)).mono fun merged result => ?_
    obtain ⟨substates, root, -, ancestry, rules⟩ := result
    exact ⟨substates, root, rfl, ancestry, rules⟩

end OntoMaps

/-- The numbers of substates after a merge. -/
def remaining (substates : List Nat) (selected : List (SiblingPair α)) : List Nat :=
  substates.zipIdx.map fun (size, state) => size - (SiblingPair.pairsOf state selected).length

theorem remaining_getElem? {selected : List (SiblingPair α)} {state size : Nat}
    (found : substates[state]? = some size) :
    (remaining substates selected)[state]? =
      some (size - (SiblingPair.pairsOf state selected).length) := by
  simp [remaining, List.getElem?_zipIdx, found]

theorem length_remaining (substates : List Nat) (selected : List (SiblingPair α)) :
    (remaining substates selected).length = substates.length := by
  simp [remaining]

namespace Relabels

variable {selected : List (SiblingPair α)} (relabels : Relabels mappings substates selected)

include relabels

theorem of_size {state size : Nat} (found : substates[state]? = some size) :
    ∃ mapping, mappings[state]? = some mapping ∧
      Collapses mapping size (SiblingPair.pairsOf state selected) := by
  have below : state < mappings.length := by
    rw [relabels.length_eq]
    exact (List.getElem?_eq_some_iff.mp found).1
  have here := List.getElem?_eq_getElem below
  exact ⟨_, here, relabels.collapses state _ size here found⟩

theorem size_of {state : Nat} {mapping : List Nat} (found : mappings[state]? = some mapping) :
    ∃ size, substates[state]? = some size ∧
      Collapses mapping size (SiblingPair.pairsOf state selected) := by
  have below : state < substates.length := by
    rw [← relabels.length_eq]
    exact (List.getElem?_eq_some_iff.mp found).1
  have here := List.getElem?_eq_getElem below
  exact ⟨_, here, relabels.collapses state mapping _ found here⟩

theorem onto : OntoMaps mappings substates (remaining substates selected) where
  length_eq := relabels.length_eq
  images_eq := length_remaining substates selected
  onto state mapping size new here found left := by
    obtain rfl := Option.some.inj (left.symm.trans (remaining_getElem? found))
    exact (relabels.collapses state mapping size here found).maps

end Relabels

end LatentGrammar
