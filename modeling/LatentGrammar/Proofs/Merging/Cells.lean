import LatentGrammar.Proofs.Consistency.Merge
import LatentGrammar.Proofs.Reestimation.Normalize

namespace LatentGrammar

open Finset

section Fibers

variable {K : Type} [AddCommMonoid K] {mapping : List Nat} {old new image n : Nat}

/-- The old substates with a given image. -/
def fiber (mapping : List Nat) (image : Nat) : Finset Nat :=
  {n ∈ range mapping.length | mapping[n]? = some image}

theorem mem_fiber : n ∈ fiber mapping image ↔ mapping[n]? = some image := by
  simp only [fiber, mem_filter, mem_range, and_iff_right_iff_imp]
  exact fun found => (List.getElem?_eq_some_iff.mp found).1

theorem fiber_nonempty (member : image ∈ mapping) : (fiber mapping image).Nonempty := by
  obtain ⟨n, found⟩ := List.getElem?_of_mem member
  exact ⟨n, mem_fiber.mpr found⟩

theorem MapsInto.lt_of_mem_fiber (maps : MapsInto mapping old new) (member : n ∈ fiber mapping image) :
    n < old := by
  rw [← maps.length_eq]
  exact (List.getElem?_eq_some_iff.mp (mem_fiber.mp member)).1

theorem MapsInto.sum_fibers (maps : MapsInto mapping old new) (f : Nat → K) :
    ∑ image ∈ range new, ∑ n ∈ fiber mapping image, f n = ∑ n ∈ range old, f n := by
  have classes (image : Nat) :
      fiber mapping image = {n ∈ range old | (mapping[n]?).getD new = image} := by
    ext n
    simp only [fiber, mem_filter, mem_range, maps.length_eq, and_congr_right_iff]
    intro below
    rw [← maps.length_eq] at below
    simp [below]
  simp only [classes]
  apply sum_fiberwise_of_maps_to
  intro n member
  have below : n < mapping.length := maps.length_eq.symm ▸ mem_range.mp member
  simpa [below] using maps.below _ (List.getElem_mem below)

end Fibers

variable {α : Type} [ExactScalar α] {allowed : Fault → Prop} {substates images : List Nat}
  {mappings : List (List Nat)}

/-- The members of a class, in order. -/
def members (mapping : List Nat) (image : Nat) : List Nat :=
  (mapping.zipIdx.filter (·.1 == image)).map (·.2)

theorem nodup_members (mapping : List Nat) (image : Nat) : (members mapping image).Nodup := by
  have numbers : (mapping.zipIdx.map (·.2)).Nodup := by
    rw [List.zipIdx_map_snd]
    exact List.nodup_range'
  exact numbers.sublist (List.filter_sublist.map _)

theorem toFinset_members (mapping : List Nat) (image : Nat) :
    (members mapping image).toFinset = fiber mapping image := by
  ext n
  simp [members, mem_fiber, List.mem_zipIdx_iff_getElem?]

/-- A weight is a share of the weight of its class, or all members of the class weigh the same. -/
theorem entry_relativeWeights {mapping : List Nat} {n image : Nat} (weights : List α)
    (found : mapping[n]? = some image) :
    entry (relativeWeights mapping weights) n =
      if 0 < ∑ m ∈ fiber mapping image, entry weights m then
        entry weights n / ∑ m ∈ fiber mapping image, entry weights m
      else 1 / (#(fiber mapping image) : α) := by
  have total : Scalar.sum ((members mapping image).map (entry weights)) =
      ∑ m ∈ fiber mapping image, entry weights m := by
    rw [Scalar.sum_eq, ← toFinset_members, List.sum_toFinset _ (nodup_members mapping image)]
  have count : (members mapping image).length = #(fiber mapping image) := by
    rw [← toFinset_members, List.toFinset_card_of_nodup (nodup_members mapping image)]
  rw [← total, ← count]
  simp only [entry, relativeWeights, List.getElem?_map, List.getElem?_zipIdx, found, Option.map_some,
    Option.getD_some, Nat.zero_add]
  rfl

/-- The weights of a class add up to one, whatever they are relative to. -/
theorem sum_relativeWeights {mapping : List Nat} {image : Nat} (weights : List α)
    (member : image ∈ mapping) :
    ∑ n ∈ fiber mapping image, entry (relativeWeights mapping weights) n = 1 := by
  have each (n : Nat) (here : n ∈ fiber mapping image) :=
    entry_relativeWeights weights (mem_fiber.mp here)
  rw [sum_congr rfl each]
  split
  · rename_i positive
    rw [← sum_div, div_self positive.ne']
  · have some : (#(fiber mapping image) : α) ≠ 0 :=
      Nat.cast_ne_zero.mpr (card_pos.mpr (fiber_nonempty member)).ne'
    rw [sum_const, nsmul_eq_mul, mul_one_div_cancel some]

/-- The weight of a substate relative to those that it is merged with. -/
def weightOf (mappings : List (List Nat)) (weights : List (List α)) (state n : Nat) : α :=
  entry (relativeWeights (mapOf mappings state) ((weights[state]?).getD [])) n

theorem sum_weightOf {state image : Nat} (weights : List (List α))
    (member : image ∈ mapOf mappings state) :
    ∑ n ∈ fiber (mapOf mappings state) image, weightOf mappings weights state n = 1 :=
  sum_relativeWeights _ member

namespace RuleBlock

variable {old : RuleBlock α} {key : Production} {weights : List (List α)} {row : List α}
  {parents lefts rights newParents newLefts newRights : Nat}

theorem cell_blank (parents lefts rights i j k : Nat) :
    (blank parents lefts rights : RuleBlock α).cell i j k = 0 := by
  simp only [cell, blank, Array.getElem?_replicate]
  split <;> rfl

/-- Cells picked out by all three substates, summed class by class. -/
theorem sum_picked {up left right : List Nat} {i' j' k' : Nat} (weight : Nat → α)
    (cells : Nat → Nat → Nat → α) :
    (∑ i ∈ range up.length, ∑ j ∈ range left.length, ∑ k ∈ range right.length,
        if up[i]? = some i' ∧ left[j]? = some j' ∧ right[k]? = some k' then
          weight i * cells i j k else 0) =
      ∑ i ∈ fiber up i', weight i * ∑ j ∈ fiber left j', ∑ k ∈ fiber right k', cells i j k := by
  simp only [fiber, sum_filter, mul_sum, mul_ite, mul_zero, ite_and, sum_ite_irrel, sum_const_zero]

/-- A new cell collects the old cells that are mapped to it. -/
theorem merge_cells (maps : Maps mappings substates images)
    (dimensions : key.dimensions substates = .ok (parents, lefts, rights))
    (newDimensions : key.dimensions images = .ok (newParents, newLefts, newRights))
    (sized : old.Sized parents lefts rights) (weighted : weights[key.parent]? = some row)
    (enough : parents ≤ row.length) {new : RuleBlock α}
    (done : old.merge key mappings weights images = .ok new) {i' j' k' : Nat}
    (parent : i' < newParents) (inLeft : j' < newLefts) (inRight : k' < newRights) :
    new.cell i' j' k' = ∑ i ∈ fiber (key.parentMap mappings) i', entry row i *
      ∑ j ∈ fiber (key.leftMap mappings) j', ∑ k ∈ fiber (key.rightMap mappings) k',
        old.cell i j k := by
  obtain ⟨_, _, _, again, up, left, right⟩ := Production.dimensions_images maps dimensions
  cases newDimensions.symm.trans again
  have grown := (merge_grows (fun block : RuleBlock α => block.cell i' j' k') maps dimensions
    newDimensions sized weighted enough (fun _ => any_overflow)
    (fun i j k => if (key.parentMap mappings)[i]? = some i' ∧ (key.leftMap mappings)[j]? = some j' ∧
      (key.rightMap mappings)[k]? = some k' then entry row i * old.cell i j k else 0)
    fun new i j k a b c weight newSized _ _ _ below belowLeft belowRight foundUp foundLeft foundRight
      foundWeight => ?_).of_ok done
  · rw [grown.grown, cell_blank, zero_add, ← up.length_eq, ← left.length_eq, ← right.length_eq]
    exact sum_picked (entry row) old.cell
  · refine add_grows newSized parent inLeft inRight below belowLeft belowRight ?_ fun _ => ?_
    · simp only [foundUp, foundLeft, foundRight, Option.some.injEq]
      tauto
    · simp [entry, foundWeight]

end RuleBlock

/-- Every cell of the new table collects the cells of the old one that are mapped to it. -/
def RuleTable.MergedFrom (new old : RuleTable α) (mappings : List (List Nat))
    (weights : List (List α)) (images : List Nat) : Prop :=
  ∀ key newParents newLefts newRights, key.dimensions images = .ok (newParents, newLefts, newRights) →
    ∀ i' < newParents, ∀ j' < newLefts, ∀ k' < newRights,
      new.cell key i' j' k' = ∑ i ∈ fiber (key.parentMap mappings) i',
        weightOf mappings weights key.parent i *
          ∑ j ∈ fiber (key.leftMap mappings) j', ∑ k ∈ fiber (key.rightMap mappings) k',
            old.cell key i j k

theorem Grammar.merge_cells {grammar merged : Grammar α} {weights : List (List α)}
    (rules : grammar.rules.Fits grammar.substates) (known : mappings.mapM imageSize = .ok images)
    (maps : Maps mappings grammar.substates images)
    (enough : grammar.substates.length ≤ weights.length)
    (done : grammar.merge mappings weights = .ok merged) :
    merged.rules.MergedFrom grammar.rules mappings weights images := by
  obtain ⟨-, -, -, mapped⟩ := merge_eq_ok known done
  intro key newParents newLefts newRights newDimensions i' parent j' inLeft k' inRight
  have found := RuleCounts.find?_mapScoresM mapped key
  unfold RuleTable.cell
  cases present : grammar.rules.find? key with
  | none =>
    rw [present] at found
    simp [found]
  | some old =>
    rw [present] at found
    obtain ⟨new, computed, there⟩ := found
    obtain ⟨parents, lefts, rights, dimensions, sized⟩ := rules.find? present
    obtain ⟨row, foundRow, weighted, length⟩ :=
      maps.relativeRows_getElem? enough (Production.parent_of_dimensions dimensions)
    have same (n : Nat) : weightOf mappings weights key.parent n =
        entry (relativeWeights (mapOf mappings key.parent) row) n := by
      rw [weightOf, foundRow, Option.getD_some]
    simp only [there, same]
    exact RuleBlock.merge_cells maps dimensions newDimensions sized weighted length.ge computed
      parent inLeft inRight

end LatentGrammar
