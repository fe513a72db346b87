import LatentGrammar.Proofs.Reestimation.Normalize

namespace LatentGrammar

open Finset

namespace Ancestry

variable {ancestry : Ancestry} {i n : Nat}

/-- The substates with the same parent as a given one, which is among them. -/
def siblings (ancestry : Ancestry) (i : Nat) : Finset Nat :=
  {n ∈ range ancestry.size | ancestry.parents[n]? = ancestry.parents[i]?}

theorem mem_siblings : n ∈ ancestry.siblings i ↔
    n < ancestry.size ∧ ancestry.parents[n]? = ancestry.parents[i]? := by
  rw [siblings, mem_filter, mem_range]

theorem self_mem_siblings (below : i < ancestry.size) : i ∈ ancestry.siblings i :=
  mem_siblings.mpr ⟨below, rfl⟩

/-- What stands next to the entries of a family is summed up over the siblings. -/
theorem sum_family {K β : Type} [AddCommMonoid K] {parent : Option Nat}
    (found : ancestry.parents[i]? = some parent) {values : List β}
    (length : values.length = ancestry.size) (f : β → K) :
    (((ancestry.parents.zip values).filter (·.1 == parent)).map (f ·.2)).sum =
      ∑ n ∈ ancestry.siblings i, (values[n]?).elim 0 f := by
  have entries : (ancestry.parents.zip values).length = ancestry.size := by
    rw [List.length_zip, length, size, Nat.min_self]
  simp only [beq_eq_decide]
  rw [siblings, sum_filter, sum_map_filter _ (fun entry : Option Nat × β => entry.1 = parent),
    sum_map_eq_sum_range, entries]
  refine sum_congr rfl fun n member => ?_
  have below := mem_range.mp member
  have here : n < ancestry.parents.length := below
  have there : n < values.length := length ▸ below
  simp [here, there, found]

end Ancestry

namespace Smoothing

variable {α : Type} [ExactScalar α] {smoothing : Smoothing α} {ancestry : Ancestry} {i n : Nat}

/-- The weight of a substate `n` in the smoothed value of a substate `i`. -/
def weight (smoothing : Smoothing α) (ancestry : Ancestry) (i n : Nat) : α :=
  match smoothing with
  | .none => if n = i then 1 else 0
  | .acrossSiblings strength =>
    if (ancestry.siblings i).card < 2 then if n = i then 1 else 0
    else if n = i then 1 - strength
    else if n ∈ ancestry.siblings i then strength / ((ancestry.siblings i).card - 1 : Nat)
    else 0

/-- The strength of the smoothing, if there is any, lies in the unit interval. -/
def Proper (smoothing : Smoothing α) : Prop :=
  ∀ strength, smoothing.strength? = some strength → 0 ≤ strength ∧ strength ≤ 1

theorem weight_nonneg (proper : smoothing.Proper) (i n : Nat) : 0 ≤ smoothing.weight ancestry i n := by
  have own : (0 : α) ≤ if n = i then 1 else 0 := by
    split
    · exact zero_le_one
    · exact le_rfl
  cases smoothing with
  | none => exact own
  | acrossSiblings strength =>
    obtain ⟨low, high⟩ := proper strength rfl
    unfold weight
    simp only
    split
    · exact own
    · split
      · exact sub_nonneg.mpr high
      · split
        · exact div_nonneg low (Nat.cast_nonneg _)
        · exact le_rfl

/-- Only siblings have a weight, and none but the substate itself if there is no smoothing. -/
theorem weight_eq_zero (below : i < ancestry.size)
    (apart : n ∉ ancestry.siblings i ∨ (¬smoothing.isActive ∧ n ≠ i)) :
    smoothing.weight ancestry i n = 0 := by
  have different : n ≠ i := by
    rcases apart with outside | ⟨-, different⟩
    · rintro rfl
      exact outside (Ancestry.self_mem_siblings below)
    · exact different
  cases smoothing with
  | none => exact if_neg different
  | acrossSiblings strength =>
    have outside : n ∉ ancestry.siblings i := by
      rcases apart with outside | ⟨inactive, -⟩
      · exact outside
      · exact absurd rfl inactive
    simp only [weight, if_neg different, if_neg outside, ite_self]

theorem cast_pred_of_many {count : Nat} (many : ¬count < 2) :
    ((count - 1 : Nat) : α) = (count : α) - 1 ∧ (count : α) - 1 ≠ 0 := by
  have single : 1 ≤ count := by omega
  have pred : ((count - 1 : Nat) : α) = (count : α) - 1 := by
    rw [Nat.cast_sub single, Nat.cast_one]
  exact ⟨pred, pred ▸ Nat.cast_ne_zero.mpr (by omega)⟩

/-- The weighted mean of the values is what smoothing mixes. -/
theorem sum_weight_mul (below : i < ancestry.size) (f : Nat → α) :
    ∑ n ∈ range ancestry.size, smoothing.weight ancestry i n * f n =
      match smoothing with
      | .none => f i
      | .acrossSiblings strength =>
        if (ancestry.siblings i).card < 2 then f i
        else (1 - strength) * f i + strength *
          ((∑ n ∈ ancestry.siblings i, f n - f i) / ((ancestry.siblings i).card - 1 : Nat)) := by
  have own : ∑ n ∈ range ancestry.size, (if n = i then 1 else 0) * f n = f i := by
    simp [below]
  cases smoothing with
  | none => exact own
  | acrossSiblings strength =>
    unfold weight
    simp only
    split
    · exact own
    · have self := Ancestry.self_mem_siblings below
      have within : ancestry.siblings i ⊆ range ancestry.size := filter_subset _ _
      have others (n : Nat) (member : n ∈ (ancestry.siblings i).erase i) :
          (if n = i then 1 - strength else if n ∈ ancestry.siblings i then
            strength / ((ancestry.siblings i).card - 1 : Nat) else 0) * f n =
            strength / ((ancestry.siblings i).card - 1 : Nat) * f n := by
        obtain ⟨different, sibling⟩ := mem_erase.mp member
        rw [if_neg different, if_pos sibling]
      rw [← sum_subset within fun n _ outside => ?_, ← add_sum_erase _ _ self, if_pos rfl,
        sum_congr rfl others, ← mul_sum, ← add_sum_erase _ f self]
      · ring
      · have different : n ≠ i := fun same => outside (same ▸ self)
        rw [if_neg different, if_neg outside, zero_mul]

theorem sum_weight (below : i < ancestry.size) :
    ∑ n ∈ range ancestry.size, smoothing.weight ancestry i n = 1 := by
  have mean : ∑ n ∈ range ancestry.size, smoothing.weight ancestry i n * 1 = _ :=
    sum_weight_mul below fun _ => (1 : α)
  simp only [mul_one] at mean
  rw [mean]
  cases smoothing with
  | none => rfl
  | acrossSiblings strength =>
    simp only
    split
    · rfl
    · rename_i many
      obtain ⟨pred, others⟩ := cast_pred_of_many (α := α) many
      simp only [sum_const, nsmul_eq_mul, mul_one, pred, div_self others]
      ring

theorem entry_smooth {values : List α} (length : values.length = ancestry.size)
    (below : i < ancestry.size) : entry (smoothing.smooth ancestry values) i =
      ∑ n ∈ range ancestry.size, smoothing.weight ancestry i n * entry values n := by
  rw [sum_weight_mul below]
  cases smoothing with
  | none => rfl
  | acrossSiblings strength =>
    have inside : i < values.length := length ▸ below
    have parent : ancestry.parents[i]? = some ancestry.parents[i] :=
      List.getElem?_eq_getElem below
    -- The family of the entry that is smoothed has as many members as there are siblings.
    have total := Ancestry.sum_family parent length (fun value : α => value)
    have count := Ancestry.sum_family parent length (fun _ : α => 1)
    have each (n : Nat) (member : n ∈ ancestry.siblings i) :
        (values[n]?).elim 0 (fun _ => 1) = 1 := by
      have there : n < values.length := length ▸ (Ancestry.mem_siblings.mp member).1
      rw [List.getElem?_eq_getElem there]
      rfl
    rw [List.map_const', List.sum_replicate, smul_eq_mul, mul_one, sum_congr rfl each, sum_const,
      smul_eq_mul, mul_one] at count
    have values_eq (n : Nat) : (values[n]?).elim 0 (fun value => value) = entry values n := by
      cases found : values[n]? <;> simp [entry, found]
    simp only [values_eq] at total
    have here : entry values i = values[i] := by simp [entry, inside]
    have smoothed : entry ((Smoothing.acrossSiblings strength).smooth ancestry values) i =
        mix strength values[i] (((ancestry.parents.zip values).filter
          (·.1 == ancestry.parents[i])).map (·.2)) := by
      have paired : (ancestry.parents.zip values)[i]? = some (ancestry.parents[i], values[i]) :=
        List.getElem?_zip_eq_some.mpr ⟨parent, List.getElem?_eq_getElem inside⟩
      simp [smooth, entry, length, paired]
    rw [smoothed, mix, List.length_map, count, Scalar.sum_eq, total, here]

end Smoothing

namespace RuleBlock

variable {α : Type} {block : RuleBlock α} {parents lefts rights number : Nat}

/-- The cells of all parent substates for one combination of child substates. -/
def columnCells [Zero α] (block : RuleBlock α) (number : Nat) : List α :=
  (List.range block.parents).map fun i => (block.cells[i * block.width + number]?).getD 0

theorem Sized.length_columnCells [Zero α] (sized : block.Sized parents lefts rights) :
    (block.columnCells number).length = parents := by
  rw [columnCells, List.length_map, List.length_range, sized.parents_eq]

variable [ExactScalar α] {allowed : Fault → Prop}

theorem Sized.column_eq (sized : block.Sized parents lefts rights) (below : number < block.width) :
    block.column number = .ok (block.columnCells number) := by
  rw [column, tabulate_eq_mapM]
  apply mapM_eq_map
  intro i member
  have inside : i * block.width + number < block.cells.size := by
    rw [sized.size_eq_width, ← sized.parents_eq]
    exact mul_add_lt_mul (List.mem_range.mp member) below
  simp [inside]

theorem Sized.entry_columnCells (sized : block.Sized parents lefts rights) {i j k : Nat}
    (parent : i < parents) :
    entry (block.columnCells (j * rights + k)) i = block.cell i j k := by
  rw [columnCells, entry_map_range (sized.parents_eq.symm ▸ parent), cell, sized.offset_eq]

theorem Sized.smooth_cells (sized : block.Sized parents lefts rights) {ancestries : List Ancestry}
    {state : Nat} {ancestry : Ancestry} (found : ancestries[state]? = some ancestry)
    (fits : ancestry.Fits parents) (smoothing : Smoothing α) :
    Delivers allowed (fun new => new.Sized parents lefts rights ∧
        ∀ i < parents, ∀ j < lefts, ∀ k < rights, new.cell i j k =
          ∑ n ∈ range parents, smoothing.weight ancestry i n * block.cell n j k)
      (block.smooth smoothing ancestries state) := by
  have columns : tabulate block.width (fun number => do
        let column ← block.column number
        return smoothing.smooth (← fetch ancestries state) column) =
      .ok ((List.range block.width).map fun number =>
        smoothing.smooth ancestry (block.columnCells number)) := by
    rw [tabulate_eq_mapM]
    apply mapM_eq_map
    intro number member
    simp only [sized.column_eq (List.mem_range.mp member), fetch_eq_ok_iff.mpr found, ok_bind]
    rfl
  simp only [smooth, columns, ok_bind]
  obtain rfl : ancestry.size = parents := fits
  refine ⟨sized.mapCells _, fun i parent j left k right => ?_⟩
  have below : j * rights + k < block.width := by
    rw [width, sized.lefts_eq, sized.rights_eq]
    exact mul_add_lt_mul left right
  have length : (block.columnCells (j * rights + k)).length = ancestry.size :=
    sized.length_columnCells
  have inside : i < (smoothing.smooth ancestry (block.columnCells (j * rights + k))).length := by
    rw [Smoothing.length_smooth, length]
    exact parent
  have mean : entry (smoothing.smooth ancestry (block.columnCells (j * rights + k))) i = _ :=
    Smoothing.entry_smooth length parent
  rw [entry, List.getElem?_eq_getElem inside, Option.getD_some] at mean
  rw [sized.cell_mapCells parent left right, List.getElem?_map, List.getElem?_range below,
    Option.map_some, Option.bind_some, List.getElem?_eq_getElem inside, Option.getD_some, mean]
  refine sum_congr rfl fun n member => ?_
  rw [sized.entry_columnCells (mem_range.mp member)]

end RuleBlock

end LatentGrammar
