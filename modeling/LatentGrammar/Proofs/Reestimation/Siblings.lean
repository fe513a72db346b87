import LatentGrammar.Proofs.Reestimation.Mixing
import LatentGrammar.Proofs.Schedule.Merges

namespace LatentGrammar

open Finset

/-- The entries of a list in another order: those with the given numbers, one after the other. -/
def rearrange {β : Type} (numbering : List Nat) (items : List β) : List β :=
  numbering.filterMap (items[·]?)

section Rearranged

variable {β γ : Type} {numbering : List Nat} {items : List β}

theorem rearrange_cons {s : Nat} (inside : s < items.length) :
    rearrange (s :: numbering) items = items[s] :: rearrange numbering items := by
  simp [rearrange, inside]

theorem rearrange_map (numbering : List Nat) (items : List β) (f : β → γ) :
    rearrange numbering (items.map f) = (rearrange numbering items).map f := by
  simp only [rearrange, List.getElem?_map, List.map_filterMap]

theorem rearrange_getElem? (inside : ∀ s ∈ numbering, s < items.length) (k : Nat) :
    (rearrange numbering items)[k]? = numbering[k]?.bind (items[·]?) := by
  induction numbering generalizing k with
  | nil => rfl
  | cons s rest ih =>
    obtain ⟨here, later⟩ := List.forall_mem_cons.mp inside
    rw [rearrange_cons here]
    cases k with
    | zero => simp [here]
    | succ k => simpa using ih later k

theorem length_rearrange (inside : ∀ s ∈ numbering, s < items.length) :
    (rearrange numbering items).length = numbering.length := by
  induction numbering with
  | nil => rfl
  | cons s rest ih =>
    obtain ⟨here, later⟩ := List.forall_mem_cons.mp inside
    rw [rearrange_cons here, List.length_cons, List.length_cons, ih later]

theorem zip_rearrange {others : List γ} (inside : ∀ s ∈ numbering, s < items.length)
    (same : others.length = items.length) :
    (rearrange numbering items).zip (rearrange numbering others) =
      rearrange numbering (items.zip others) := by
  induction numbering with
  | nil => rfl
  | cons s rest ih =>
    obtain ⟨here, later⟩ := List.forall_mem_cons.mp inside
    have there : s < others.length := same.symm ▸ here
    have both : s < (items.zip others).length := by
      rw [List.length_zip, same, Nat.min_self]
      exact here
    rw [rearrange_cons here, rearrange_cons there, rearrange_cons both, List.zip_cons_cons, ih later,
      List.getElem_zip]

/-- If every number occurs once, no entry is lost. -/
theorem rearrange_perm (complete : numbering.Perm (List.range items.length)) :
    (rearrange numbering items).Perm items := by
  have whole : rearrange (List.range items.length) items = items := by
    apply List.ext_getElem?
    intro k
    rw [rearrange_getElem? fun s member => List.mem_range.mp member]
    by_cases below : k < items.length <;> simp [below]
  have entries := complete.filterMap (items[·]?)
  rwa [show (List.range items.length).filterMap (items[·]?) = items from whole] at entries

theorem foldl_set_getElem? (target : Nat → β) (order : List Nat) (i : Nat) :
    (order.foldl (fun items s => items.set s (target s)) items)[i]? =
      if i ∈ order then (items[i]?).map fun _ => target i else items[i]? := by
  induction order generalizing items with
  | nil => simp
  | cons s rest ih =>
    rw [List.foldl_cons, ih]
    by_cases here : s = i
    · subst here
      by_cases below : s < items.length <;> simp [below]
    · simp [List.getElem?_set_ne here, Ne.symm here]

end Rearranged

namespace Ancestry

variable {ancestry : Ancestry} {i n : Nat} {parent : Option Nat}

theorem lt_size_of_parent (found : ancestry.parents[i]? = some parent) : i < ancestry.size :=
  (List.getElem?_eq_some_iff.mp found).1

theorem exists_parent (below : i < ancestry.size) : ∃ parent, ancestry.parents[i]? = some parent :=
  ⟨_, List.getElem?_eq_getElem below⟩

theorem siblings_eq_of_mem (member : n ∈ ancestry.siblings i) :
    ancestry.siblings n = ancestry.siblings i := by
  simp only [siblings, (mem_siblings.mp member).2]

/-- The values of a family stand next to its parent in the table of parents and values. -/
theorem map_family {β : Type} {values : List β} (length : values.length = ancestry.size)
    (parent : Option Nat) (default : β) :
    (ancestry.family parent).map (fun s => (values[s]?).getD default) =
      ((ancestry.parents.zip values).filter (·.1 == parent)).map (·.2) := by
  have paired : ancestry.parents.zip values =
      ancestry.parents.zipIdx.map fun (parent, s) => (parent, (values[s]?).getD default) := by
    apply List.ext_getElem?
    intro s
    by_cases below : s < ancestry.parents.length
    · have inside : s < values.length := length ▸ below
      have entries : (ancestry.parents.zip values)[s]? = some (ancestry.parents[s], values[s]) :=
        List.getElem?_zip_eq_some.mpr
          ⟨List.getElem?_eq_getElem below, List.getElem?_eq_getElem inside⟩
      rw [entries]
      simp [below, inside]
    · simp [Nat.not_lt.mp below]
  rw [paired, List.filter_map, List.map_map, family, List.map_map]
  rfl

theorem exists_group (below : i < ancestry.size) : ∃ group ∈ ancestry.groups, i ∈ group := by
  obtain ⟨parent, found⟩ := exists_parent below
  refine ⟨ancestry.family parent, List.mem_map_of_mem ?_, mem_family_iff.mpr found⟩
  exact List.mem_eraseDups.mpr (List.mem_of_getElem? found)

end Ancestry

namespace Smoothing

variable {α : Type} [ExactScalar α] {ancestry : Ancestry} {strength : α} {values : List α}
  {i : Nat} {parent : Option Nat}

/-- What is mixed in does not depend on the order of a family. -/
theorem mix_perm {family other : List α} (perm : family.Perm other) (strength value : α) :
    mix strength value family = mix strength value other := by
  simp only [mix, perm.length_eq, Scalar.sum_eq, perm.sum_eq]

/-- A smoothed value is mixed from the old values of its family. -/
theorem smooth_getElem? (length : values.length = ancestry.size)
    (found : ancestry.parents[i]? = some parent) :
    ((acrossSiblings strength).smooth ancestry values)[i]? =
      some (mix strength (entry values i) ((ancestry.family parent).map (entry values))) := by
  have inside : i < values.length := length ▸ Ancestry.lt_size_of_parent found
  have paired : (ancestry.parents.zip values)[i]? = some (parent, values[i]) :=
    List.getElem?_zip_eq_some.mpr ⟨found, List.getElem?_eq_getElem inside⟩
  have family : (ancestry.family parent).map (entry values) = _ :=
    Ancestry.map_family length parent 0
  have value : entry values i = values[i] := by simp [entry, inside]
  rw [family, value]
  simp [smooth, length, paired]

/-- Smooths the members of a group one after the other. Every new value takes the place of the old
one at once, and is reckoned from the values that were there in the beginning. -/
def smoothGroup (strength : α) (old values : List α) (group : List Nat) : List α :=
  group.foldl (fun values s =>
    values.set s (mix strength (entry old s) (group.map (entry old)))) values

/-- The groups in some order, each with its members in some order. -/
def Rearranges (order groups : List (List Nat)) : Prop :=
  ∃ sorted, List.Forall₂ List.Perm order sorted ∧ sorted.Perm groups

theorem Rearranges.of_mem {order groups : List (List Nat)} (rearranges : Rearranges order groups)
    {group : List Nat} (member : group ∈ order) : ∃ other ∈ groups, group.Perm other := by
  obtain ⟨sorted, each, perm⟩ := rearranges
  obtain ⟨other, present, same⟩ := exists_mem_of_forall₂ each member
  exact ⟨other, perm.mem_iff.mp present, same⟩

theorem Rearranges.covers {order groups : List (List Nat)} (rearranges : Rearranges order groups)
    {group : List Nat} (member : group ∈ groups) {s : Nat} (inside : s ∈ group) :
    s ∈ order.flatten := by
  obtain ⟨sorted, each, perm⟩ := rearranges
  obtain ⟨other, present, same⟩ := exists_mem_of_forall₂ each.flip (perm.mem_iff.mpr member)
  exact List.mem_flatten.mpr ⟨other, present, same.mem_iff.mpr inside⟩

/-- Groups that are smoothed in place, in whatever order, come to the smoothed values. -/
theorem foldl_smoothGroup (length : values.length = ancestry.size) {order : List (List Nat)}
    (rearranges : Rearranges order ancestry.groups) :
    order.foldl (smoothGroup strength values) values =
      (acrossSiblings strength).smooth ancestry values := by
  let target := entry ((acrossSiblings strength).smooth ancestry values)
  have each (old : List α) (group : List Nat) (member : group ∈ order) :
      smoothGroup strength values old group =
        group.foldl (fun values s => values.set s (target s)) old := by
    refine List.foldl_ext _ _ _ fun current s inside => ?_
    obtain ⟨other, isGroup, perm⟩ := rearranges.of_mem member
    obtain ⟨parent, -, rfl⟩ := List.mem_map.mp isGroup
    have found := Ancestry.mem_family_iff.mp (perm.mem_iff.mp inside)
    have smoothed : target s = _ := congrArg (Option.getD · 0) (smooth_getElem? length found)
    rw [smoothed, Option.getD_some, mix_perm (perm.map _)]
  rw [List.foldl_ext _ _ _ each, ← List.foldl_flatten]
  apply List.ext_getElem?
  intro i
  rw [foldl_set_getElem?]
  by_cases below : i < ancestry.size
  · obtain ⟨group, isGroup, inside⟩ := Ancestry.exists_group below
    have here : i < values.length := length ▸ below
    rw [if_pos (rearranges.covers isGroup inside)]
    simp [target, entry, here]
  · have beyond : values.length ≤ i := length ▸ Nat.not_lt.mp below
    have after : ((acrossSiblings strength).smooth ancestry values).length ≤ i := by
      rwa [length_smooth]
    simp [List.getElem?_eq_none beyond, List.getElem?_eq_none after]

/-- Substates that have got other numbers are smoothed as before. -/
theorem smooth_rearrange (length : values.length = ancestry.size) {numbering : List Nat}
    (complete : numbering.Perm (List.range ancestry.size)) :
    (acrossSiblings strength).smooth ⟨rearrange numbering ancestry.parents⟩
        (rearrange numbering values) =
      rearrange numbering ((acrossSiblings strength).smooth ancestry values) := by
  have inside : ∀ s ∈ numbering, s < ancestry.parents.length := fun s member =>
    List.mem_range.mp (complete.mem_iff.mp member)
  have insideValues : ∀ s ∈ numbering, s < values.length := fun s member =>
    length ▸ inside s member
  have insideSmoothed : ∀ s ∈ numbering,
      s < ((acrossSiblings strength).smooth ancestry values).length := fun s member => by
    rw [length_smooth]
    exact insideValues s member
  have lengths : (rearrange numbering values).length =
      Ancestry.size ⟨rearrange numbering ancestry.parents⟩ :=
    (length_rearrange insideValues).trans (length_rearrange inside).symm
  have entries : ((rearrange numbering ancestry.parents).zip (rearrange numbering values)).Perm
      (ancestry.parents.zip values) := by
    rw [zip_rearrange inside length]
    apply rearrange_perm
    rwa [List.length_zip, show values.length = ancestry.parents.length from length, Nat.min_self]
  apply List.ext_getElem?
  intro k
  rw [rearrange_getElem? insideSmoothed]
  cases numbered : numbering[k]? with
  | none =>
    have beyond : numbering.length ≤ k := List.getElem?_eq_none_iff.mp numbered
    refine List.getElem?_eq_none ?_
    rwa [length_smooth, length_rearrange insideValues]
  | some s =>
    obtain ⟨parent, found⟩ := Ancestry.exists_parent (inside s (List.mem_of_getElem? numbered))
    have renamed : (rearrange numbering ancestry.parents)[k]? = some parent := by
      rw [rearrange_getElem? inside, numbered, Option.bind_some, found]
    have value : entry (rearrange numbering values) k = entry values s := by
      rw [entry, rearrange_getElem? insideValues, numbered, Option.bind_some, entry]
    have family : (((⟨rearrange numbering ancestry.parents⟩ : Ancestry).family parent).map
        (entry (rearrange numbering values))).Perm ((ancestry.family parent).map (entry values)) := by
      have new : _ = _ := Ancestry.map_family lengths parent (0 : α)
      have old : _ = _ := Ancestry.map_family length parent (0 : α)
      unfold entry
      rw [new, old]
      exact (entries.filter _).map _
    rw [Option.bind_some, smooth_getElem? lengths renamed, smooth_getElem? length found, value,
      mix_perm family]

/-- Smoothed values add up to the old ones among siblings. -/
theorem sum_siblings (length : values.length = ancestry.size) (i : Nat) :
    ∑ n ∈ ancestry.siblings i, entry ((acrossSiblings strength).smooth ancestry values) n =
      ∑ n ∈ ancestry.siblings i, entry values n := by
  have each (n : Nat) (member : n ∈ ancestry.siblings i) :
      entry ((acrossSiblings strength).smooth ancestry values) n =
        if (ancestry.siblings i).card < 2 then entry values n
        else (1 - strength) * entry values n + strength *
          ((∑ n ∈ ancestry.siblings i, entry values n - entry values n) /
            ((ancestry.siblings i).card - 1 : Nat)) := by
    have below := (Ancestry.mem_siblings.mp member).1
    rw [entry_smooth length below, sum_weight_mul below]
    simp only [Ancestry.siblings_eq_of_mem member]
  rw [sum_congr rfl each]
  split
  · rfl
  · rename_i many
    obtain ⟨pred, others⟩ := cast_pred_of_many (α := α) many
    rw [sum_add_distrib, ← mul_sum, ← mul_sum, ← sum_div, sum_sub_distrib, sum_const, nsmul_eq_mul,
      pred]
    field_simp
    ring

/-- Families are disjoint, so all values together keep their total. -/
theorem sum_smooth (length : values.length = ancestry.size) :
    ((acrossSiblings strength).smooth ancestry values).sum = values.sum := by
  have total (list : List α) (same : list.length = ancestry.size) :
      list.sum = ∑ parent ∈ (range ancestry.size).image (ancestry.parents[·]?),
        ∑ n ∈ range ancestry.size with ancestry.parents[n]? = parent, entry list n := by
    have whole := sum_map_eq_sum_range list id
    have entries (n : Nat) : (list[n]?).elim 0 id = entry list n := by
      cases found : list[n]? <;> simp [entry, found]
    rw [List.map_id, same] at whole
    simp only [entries] at whole
    rw [whole]
    exact (sum_fiberwise_of_maps_to (fun n member => mem_image_of_mem _ member) _).symm
  rw [total _ ((length_smooth _ _ _).trans length), total _ length]
  refine sum_congr rfl fun parent member => ?_
  obtain ⟨i, -, rfl⟩ := mem_image.mp member
  exact sum_siblings length i

theorem smooth_between (proper : (acrossSiblings strength).Proper)
    (length : values.length = ancestry.size) (below : i < ancestry.size) :
    ∃ least ∈ ancestry.siblings i, ∃ greatest ∈ ancestry.siblings i,
      entry values least ≤ entry ((acrossSiblings strength).smooth ancestry values) i ∧
        entry ((acrossSiblings strength).smooth ancestry values) i ≤ entry values greatest := by
  have some : (ancestry.siblings i).Nonempty := ⟨i, Ancestry.self_mem_siblings below⟩
  obtain ⟨least, isLeast, low⟩ := exists_min_image _ (entry values) some
  obtain ⟨greatest, isGreatest, high⟩ := exists_max_image _ (entry values) some
  have one : ∑ n ∈ range ancestry.size, (acrossSiblings strength).weight ancestry i n = 1 :=
    sum_weight below
  have bounded (n : Nat) {f g : α} (ordered : n ∈ ancestry.siblings i → f ≤ g) :
      (acrossSiblings strength).weight ancestry i n * f ≤
        (acrossSiblings strength).weight ancestry i n * g := by
    by_cases sibling : n ∈ ancestry.siblings i
    · exact mul_le_mul_of_nonneg_left (ordered sibling) (weight_nonneg proper i n)
    · rw [weight_eq_zero below (.inl sibling), zero_mul, zero_mul]
  refine ⟨least, isLeast, greatest, isGreatest, ?_, ?_⟩
  · rw [entry_smooth length below]
    calc entry values least
        = ∑ n ∈ range ancestry.size,
            (acrossSiblings strength).weight ancestry i n * entry values least := by
          rw [← sum_mul, one, one_mul]
      _ ≤ _ := sum_le_sum fun n _ => bounded n fun sibling => low n sibling
  · rw [entry_smooth length below]
    calc ∑ n ∈ range ancestry.size, (acrossSiblings strength).weight ancestry i n * entry values n
        ≤ ∑ n ∈ range ancestry.size,
            (acrossSiblings strength).weight ancestry i n * entry values greatest :=
          sum_le_sum fun n _ => bounded n fun sibling => high n sibling
      _ = entry values greatest := by rw [← sum_mul, one, one_mul]

theorem smooth_single (length : values.length = ancestry.size)
    (single : ancestry.siblings i = {i}) :
    entry ((acrossSiblings strength).smooth ancestry values) i = entry values i := by
  have kept : ∑ n ∈ ancestry.siblings i,
      entry ((acrossSiblings strength).smooth ancestry values) n = _ := sum_siblings length i
  rwa [single, sum_singleton, sum_singleton] at kept

end Smoothing

/-- Rows that have the same total as the rows of all siblings keep it. -/
theorem RuleBlock.Sized.rowTotal_smooth {α : Type} [ExactScalar α] {block : RuleBlock α}
    {parents lefts rights state : Nat} {ancestry : Ancestry} {ancestries : List Ancestry}
    (sized : block.Sized parents lefts rights) (found : ancestries[state]? = some ancestry)
    (fits : ancestry.Fits parents) (smoothing : Smoothing α) :
    ∃ smoothed, block.smooth smoothing ancestries state = .ok smoothed ∧
      smoothed.Sized parents lefts rights ∧
      ∀ i < parents, ∀ total, (∀ n ∈ ancestry.siblings i, block.rowTotal n = .ok total) →
        smoothed.rowTotal i = .ok total := by
  obtain ⟨smoothed, done, newSized, cells⟩ :=
    delivers_never_iff.mp (sized.smooth_cells found fits smoothing)
  refine ⟨smoothed, done, newSized, fun i below total same => ?_⟩
  obtain rfl : ancestry.size = parents := fits
  have row (n : Nat) : n ∈ ancestry.siblings i →
      ∑ j ∈ range lefts, ∑ k ∈ range rights, block.cell n j k = total := fun sibling =>
    Except.ok.inj ((sized.rowTotal_eq (Ancestry.mem_siblings.mp sibling).1).symm.trans
      (same n sibling))
  rw [newSized.rowTotal_eq below]
  congr 1
  calc ∑ j ∈ range lefts, ∑ k ∈ range rights, smoothed.cell i j k
      = ∑ j ∈ range lefts, ∑ k ∈ range rights, ∑ n ∈ range ancestry.size,
          smoothing.weight ancestry i n * block.cell n j k :=
        sum_congr rfl fun j left => sum_congr rfl fun k right =>
          cells i below j (mem_range.mp left) k (mem_range.mp right)
    _ = ∑ n ∈ range ancestry.size, smoothing.weight ancestry i n *
          ∑ j ∈ range lefts, ∑ k ∈ range rights, block.cell n j k := by
        simp only [mul_sum]
        rw [sum_congr rfl fun j _ => sum_comm, sum_comm]
    _ = ∑ n ∈ range ancestry.size, smoothing.weight ancestry i n * total := by
        refine sum_congr rfl fun n _ => ?_
        by_cases sibling : n ∈ ancestry.siblings i
        · rw [row n sibling]
        · rw [Smoothing.weight_eq_zero below (.inl sibling), zero_mul, zero_mul]
    _ = total := by rw [← sum_mul, Smoothing.sum_weight below, one_mul]

namespace Smoothing

variable {α : Type} [ExactScalar α] {ancestry : Ancestry} {strength : α}

/-- Values are passed around among siblings only, and nothing is lost. -/
structure Redistributes (ancestry : Ancestry) (old new : List α) : Prop where
  length_eq : new.length = old.length
  siblings : ∀ i < ancestry.size,
    ∑ n ∈ ancestry.siblings i, entry new n = ∑ n ∈ ancestry.siblings i, entry old n
  total : new.sum = old.sum
  single : ∀ i < ancestry.size, ancestry.siblings i = {i} → entry new i = entry old i
  between : ∀ i < ancestry.size, ∃ least ∈ ancestry.siblings i,
    ∃ greatest ∈ ancestry.siblings i, entry old least ≤ entry new i ∧ entry new i ≤ entry old greatest

/-- Smoothing redistributes among siblings. It comes to the same if the groups and their members are
taken in any order and the values overwritten in place, and substates that have got other numbers
get the values that they would have got. Values that the ancestry does not match are left alone, as
all are without smoothing. Rows of a rule that have one total among siblings keep it. -/
theorem smooth_redistributes (low : 0 ≤ strength) (high : strength ≤ 1) (ancestry : Ancestry) :
    (∀ values : List α, values.length = ancestry.size →
      Redistributes ancestry values ((acrossSiblings strength).smooth ancestry values) ∧
      (∀ order, Rearranges order ancestry.groups →
        order.foldl (smoothGroup strength values) values =
          (acrossSiblings strength).smooth ancestry values) ∧
      ∀ numbering : List Nat, numbering.Perm (List.range ancestry.size) →
        (acrossSiblings strength).smooth ⟨rearrange numbering ancestry.parents⟩
            (rearrange numbering values) =
          rearrange numbering ((acrossSiblings strength).smooth ancestry values)) ∧
    (∀ values : List α, values.length ≠ ancestry.size →
      (acrossSiblings strength).smooth ancestry values = values) ∧
    (∀ values : List α, Smoothing.none.smooth ancestry values = values) ∧
    ∀ (block : RuleBlock α) (lefts rights state : Nat) (ancestries : List Ancestry),
      block.Sized ancestry.size lefts rights → ancestries[state]? = some ancestry →
      ∃ smoothed, block.smooth (acrossSiblings strength) ancestries state = .ok smoothed ∧
        smoothed.Sized ancestry.size lefts rights ∧
        ∀ i < ancestry.size, ∀ total,
          (∀ n ∈ ancestry.siblings i, block.rowTotal n = .ok total) →
            smoothed.rowTotal i = .ok total := by
  have proper : (acrossSiblings strength).Proper := by
    intro other same
    obtain rfl := Option.some.inj same
    exact ⟨low, high⟩
  refine ⟨fun values length => ⟨?_, fun order => foldl_smoothGroup length,
    fun numbering => smooth_rearrange length⟩, fun values unmatched => ?_, fun values => rfl,
    fun block lefts rights state ancestries sized found => sized.rowTotal_smooth found rfl _⟩
  · exact {
      length_eq := length_smooth _ _ _
      siblings := fun i _ => sum_siblings length i
      total := sum_smooth length
      single := fun i _ => smooth_single length
      between := fun i => smooth_between proper length }
  · have apart : ¬(ancestry.size == values.length) = true := by
      simpa using unmatched.symm
    exact if_neg apart

/-- Siblings that do not stand next to each other, beside two substates that are only children. -/
def scatteredAncestry : Ancestry := ⟨[some 0, some 1, some 0, .none, some 0]⟩

def scatteredRows : RuleBlock Rat :=
  ⟨5, 2, 1, #[1 / 2, 1 / 2, 0, 0, 1, 0, 1 / 5, 3 / 5, 1 / 4, 3 / 4]⟩

theorem scatteredAncestry_redistributes :
    let values : List Rat := [1 / 2, 1 / 3, 1 / 4, 1 / 5, 0]
    let smoothed := (acrossSiblings (1 / 4)).smooth scatteredAncestry values
    smoothed = [13 / 32, 1 / 3, 1 / 4, 1 / 5, 3 / 32] ∧
      Redistributes scatteredAncestry values smoothed ∧
      [[3], [4, 0, 2], [1]].foldl (smoothGroup (1 / 4) values) values = smoothed ∧
      (acrossSiblings (1 / 4)).smooth ⟨[some 0, some 0, some 1, some 0, .none]⟩
          [1 / 4, 1 / 2, 1 / 3, 0, 1 / 5] = rearrange [2, 0, 1, 4, 3] smoothed ∧
      (acrossSiblings (1 / 4)).smooth scatteredAncestry [(1 : Rat)] = [1] ∧
      ∃ rows, scatteredRows.smooth (acrossSiblings (1 / 4)) [scatteredAncestry] 0 = .ok rows ∧
        rows.rowTotal 2 = .ok 1 := by
  intro values smoothed
  obtain ⟨matched, unmatched, -, rows⟩ := smooth_redistributes (show (0 : Rat) ≤ 1 / 4 by norm_num)
    (show (1 / 4 : Rat) ≤ 1 by norm_num) scatteredAncestry
  obtain ⟨redistributes, ordered, numbered⟩ := matched values rfl
  have groups : Rearranges [[3], [4, 0, 2], [1]] scatteredAncestry.groups :=
    ⟨[[3], [0, 2, 4], [1]], by decide, by decide⟩
  have sized : scatteredRows.Sized scatteredAncestry.size 2 1 := ⟨rfl, rfl, rfl, rfl⟩
  obtain ⟨new, done, -, totals⟩ := rows scatteredRows 2 1 0 [scatteredAncestry] sized rfl
  have family : scatteredAncestry.siblings 2 = {0, 2, 4} := by decide
  refine ⟨by decide +kernel, redistributes, ordered _ groups, ?_, unmatched _ (by decide), new, done,
    totals 2 (by decide) 1 ?_⟩
  · exact numbered [2, 0, 1, 4, 3] (by decide)
  · rw [family]
    simp only [mem_insert, mem_singleton, forall_eq_or_imp, forall_eq]
    exact ⟨by decide +kernel, by decide +kernel, by decide +kernel⟩

end Smoothing

end LatentGrammar
