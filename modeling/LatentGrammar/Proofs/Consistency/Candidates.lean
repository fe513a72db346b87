import LatentGrammar.Proofs.Consistency.Passes

namespace LatentGrammar

variable {α : Type} {allowed : Fault → Prop} {categories root : Nat} {model : Model α}

namespace Ancestry

theorem mem_pairUp {members : List Nat} {pair : Nat × Nat} (member : pair ∈ pairUp members) :
    pair.1 ∈ members ∧ pair.2 ∈ members := by
  induction members using pairUp.induct with
  | case1 first second rest ih =>
    rw [pairUp] at member
    rcases List.mem_cons.mp member with rfl | later
    · simp
    · obtain ⟨one, two⟩ := ih later
      simp [one, two]
  | case2 members short =>
    rw [pairUp.eq_2 members short] at member
    exact absurd member List.not_mem_nil

theorem pairs_inside {ancestry : Ancestry} {pair : Nat × Nat} (member : pair ∈ ancestry.pairs) :
    pair.1 < ancestry.size ∧ pair.2 < ancestry.size := by
  obtain ⟨group, isGroup, paired⟩ := List.mem_flatMap.mp member
  obtain ⟨parent, -, rfl⟩ := List.mem_map.mp isGroup
  have inside {n : Nat} (relative : n ∈ ancestry.family parent) : n < ancestry.size := by
    obtain ⟨⟨found, n⟩, kept, rfl⟩ := List.mem_map.mp relative
    have here := List.mem_zipIdx_iff_getElem?.mp (List.mem_filter.mp kept).1
    exact (List.getElem?_eq_some_iff.mp here).1
  obtain ⟨first, second⟩ := mem_pairUp paired
  exact ⟨inside first, inside second⟩

end Ancestry

theorem mergeCandidates_fit (consistent : model.Consistent categories root) [Scalar α] :
    ∀ pair ∈ model.mergeCandidates, pair.Fits model.substates root := by
  intro pair member
  obtain ⟨⟨ancestry, state⟩, numbered, offered⟩ := List.mem_flatMap.mp member
  have found := List.mem_zipIdx_iff_getElem?.mp numbered
  dsimp only at offered
  split at offered
  · exact absurd offered List.not_mem_nil
  · rename_i different
    obtain ⟨⟨first, second⟩, paired, rfl⟩ := List.mem_map.mp offered
    refine ⟨?_, ?_, fun size known => ?_⟩
    · rw [← consistent.root_eq]
      simpa using different
    · show state < model.grammar.substates.length
      rw [← consistent.ancestry.length_eq]
      exact (List.getElem?_eq_some_iff.mp found).1
    · have sized : ancestry.size = size := relation_of_forall₂ consistent.ancestry found known
      rw [← sized]
      exact Ancestry.pairs_inside paired

theorem mem_select [Scalar α] [TotalOrder α] {separate : Bool} {share : α} {lexical : List Bool}
    {candidates : List (SiblingPair α)} {pair : SiblingPair α}
    (member : pair ∈ SiblingPair.select separate share lexical candidates) : pair ∈ candidates := by
  have cheap {some : List (SiblingPair α)} (chosen : pair ∈ SiblingPair.cheapest share some) :
      pair ∈ some :=
    List.mem_mergeSort.mp (List.mem_of_mem_take chosen)
  unfold SiblingPair.select at member
  split at member
  · rcases List.mem_append.mp member with lexical | other
    · exact (List.mem_filter.mp (cheap lexical)).1
    · exact (List.mem_filter.mp (cheap other)).1
  · exact cheap member

namespace Model

variable [Scalar α] {forest : Forest α} {weights : List (List α)}

theorem weighTree_delivers (consistent : model.Consistent categories root) {tree : LatentTree α}
    (fits : tree.Fits model.substates)
    (weighted : List.Forall₂ HasSize weights model.substates) :
    Delivers allowed
      (fun next => next.1.Fits model.substates ∧ List.Forall₂ HasSize next.2 model.substates)
      (model.weighTree tree weights) := by
  apply (Training.computeBoth_fits consistent fits).bind
  intro scored scoredFits
  have massed : Delivers allowed (fun _ => True) scored.mass :=
    LatentTree.delivers_mass (Training.nonempty_of_fits consistent scoredFits)
  apply massed.bind
  intro mass _
  refine Delivers.ite (fun _ => ?_) fun _ => ⟨scoredFits, weighted⟩
  have posteriors : Delivers allowed (fun _ => True) scored.posteriors :=
    massed.bind fun _ _ => trivial
  apply posteriors.bind
  intro rows _
  suffices added : Delivers allowed
      (fun weights : List (List α) => List.Forall₂ HasSize weights model.substates) _ from
    added.bind fun weights weighted => ⟨scoredFits, weighted⟩
  refine Delivers.foldlM weighted fun weights (state, posterior) member weighted => ?_
  obtain ⟨node, inside, rfl⟩ := List.mem_map.mp (List.of_mem_zip member).1
  have found := (scoredFits.of_mem inside).substates_eq
  obtain ⟨row, present, sized⟩ := exists_of_forall₂ weighted found
  simp only [addWeights, fetch_eq_ok_iff.mpr present]
  exact forall₂_set weighted found ((Scalar.length_addInto row posterior).trans sized)

theorem mergeWeights_sound (consistent : model.Consistent categories root)
    (fits : forest.Fits model.substates) (overflow : allowed .overflow) :
    (Training.Pass.ofSweep forest (model.mergeWeights forest)).Sound allowed model.substates
      fun weights => List.Forall₂ HasSize weights model.substates := by
  have zeros : Delivers allowed
      (fun rows : List (List α) => List.Forall₂ HasSize rows model.substates)
      (model.substates.mapM (fill · 0)) := delivers_zero_rows model.substates overflow
  unfold mergeWeights
  cases known : model.substates.mapM (fill · (0 : α)) with
  | error fault =>
    rw [known] at zeros
    exact ⟨fits, zeros⟩
  | ok start =>
    rw [known] at zeros
    have each (index : Nat) (tree : LatentTree α) (weights : List (List α))
        (treeFits : tree.Fits model.substates)
        (weighted : List.Forall₂ HasSize weights model.substates) :
        Delivers allowed
          (fun next => next.1.Fits model.substates ∧ List.Forall₂ HasSize next.2 model.substates)
          (model.weighTree tree weights) :=
      weighTree_delivers consistent treeFits weighted
    exact Training.Pass.ofSweep_sound each fits zeros 0

theorem mergedTotal_delivers {row inside outside : List α} {size first second : Nat}
    (rowSized : row.length = size) (insideSized : inside.length = size)
    (outsideSized : outside.length = size) (firstBelow : first < size) (secondBelow : second < size)
    (total : α) :
    Delivers allowed (fun _ => True) (mergedTotal row inside outside total first second) := by
  have entry {values : List α} (sized : values.length = size) {n : Nat} (below : n < size) :
      Delivers allowed (fun _ => True) (fetch values n) :=
    delivers_fetch_below (sized ▸ below)
  apply (entry rowSized firstBelow).bind
  intro _ _
  apply (entry rowSized secondBelow).bind
  intro _ _
  apply (entry insideSized firstBelow).bind
  intro _ _
  apply (entry insideSized secondBelow).bind
  intro _ _
  apply (entry outsideSized firstBelow).bind
  intro _ _
  exact (entry outsideSized secondBelow).bind fun _ _ => trivial

theorem addLosses_delivers (weighted : List.Forall₂ HasSize weights model.substates)
    {node : LatentTree α} (fits : node.Fits model.substates) {candidates : List (SiblingPair α)}
    (fit : ∀ pair ∈ candidates, pair.Fits model.substates root) :
    Delivers allowed (fun next : List (SiblingPair α) =>
        ∀ pair ∈ next, pair.Fits model.substates root)
      (addLosses model.substates.length weights candidates node) := by
  have found := fits.substates_eq
  apply Delivers.ite
  · intro _
    exact fit
  intro _
  have known : ¬model.substates.length ≤ node.state :=
    Nat.not_le.mpr (List.getElem?_eq_some_iff.mp found).1
  rw [if_neg known]
  apply Delivers.mapM_forall
  intro pair member
  have here := fit pair member
  apply Delivers.ite
  · intro _
    exact here
  intro same
  obtain same : pair.state = node.state := by simpa using same
  obtain ⟨first, second⟩ := here.inside _ (same ▸ found)
  obtain ⟨row, present, sized⟩ := exists_of_forall₂ weighted found
  simp only [fetch_eq_ok_iff.mpr present, ok_bind]
  apply (mergedTotal_delivers sized rfl fits.top.outside first second _).bind
  intro merged _
  exact Delivers.ite (fun _ => ⟨here.state_ne, here.known, here.inside⟩) fun _ => here

theorem mergeLosses_sound (consistent : model.Consistent categories root)
    (fits : forest.Fits model.substates)
    (weighted : List.Forall₂ HasSize weights model.substates) :
    (Training.Pass.ofSweep forest (model.mergeLosses forest weights)).Sound allowed
      model.substates fun candidates => ∀ pair ∈ candidates, pair.Fits model.substates root := by
  have fit := mergeCandidates_fit consistent
  have known : model.mergeCandidates.all (·.state < model.substates.length) :=
    List.all_eq_true.mpr fun pair member => by simpa using (fit pair member).known
  unfold mergeLosses
  simp only [known, if_true]
  refine Training.Pass.ofSweep_sound (fun _ tree candidates treeFits fit => ?_) fits fit 0
  apply (Training.computeBoth_fits consistent treeFits).bind
  intro scored scoredFits
  refine (LatentTree.delivers_mass (Training.nonempty_of_fits consistent scoredFits)).bind
    fun mass _ => ?_
  refine Delivers.ite (fun _ => ?_) fun _ => ⟨scoredFits, fit⟩
  suffices judged : Delivers allowed
      (fun next : List (SiblingPair α) => ∀ pair ∈ next, pair.Fits model.substates root) _ from
    judged.bind fun next fit => ⟨scoredFits, fit⟩
  exact Delivers.foldlM fit fun candidates node member fit =>
    addLosses_delivers weighted (scoredFits.of_mem member) fit

end Model

end LatentGrammar
