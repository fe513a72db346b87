import LatentGrammar.Proofs.Counting.Totals
import LatentGrammar.Proofs.Reestimation.Ordered

namespace LatentGrammar

open Finset

variable {α : Type} [ExactScalar α] {allowed : Fault → Prop} {substates : List Nat}

theorem Scalar.sum_eq (values : List α) : Scalar.sum values = values.sum :=
  List.sum_eq_foldl.symm

namespace RuleBlock

variable {block : RuleBlock α} {parents lefts rights i j k : Nat}

omit [ExactScalar α] in
theorem Sized.offset_eq (sized : block.Sized parents lefts rights) :
    block.offset i j k = i * block.width + (j * rights + k) := by
  rw [offset, width, sized.lefts_eq, sized.rights_eq]
  ring

theorem Sized.rowTotal_eq (sized : block.Sized parents lefts rights) (below : i < parents) :
    block.rowTotal i = .ok (∑ j ∈ range lefts, ∑ k ∈ range rights, block.cell i j k) := by
  have inside : (i + 1) * block.width ≤ block.cells.size :=
    sized.size_eq_width ▸ Nat.mul_le_mul_right _ below
  have entries : (block.cells.extract (i * block.width) ((i + 1) * block.width)).toList =
      (List.range block.width).map fun n => (block.cells[i * block.width + n]?).getD 0 := by
    apply List.ext_getElem?
    intro n
    rw [Nat.succ_mul] at inside ⊢
    by_cases column : n < block.width
    · have cell : i * block.width + n < block.cells.size := by omega
      simp [column, cell]
    · simp [column]
  have total : ((List.range block.width).map fun n =>
      (block.cells[i * block.width + n]?).getD 0).sum =
      ∑ n ∈ range block.width, (block.cells[i * block.width + n]?).getD 0 :=
    (Multiset.sum_coe _).symm
  simp only [rowTotal, if_pos inside, Scalar.sum_eq, entries, total]
  rw [show range block.width = range (lefts * rights) by
    rw [width, sized.lefts_eq, sized.rights_eq], sum_range_mul]
  simp only [cell, sized.offset_eq]

theorem Sized.cell_mapCells (sized : block.Sized parents lefts rights) (parent : i < parents)
    (left : j < lefts) (right : k < rights) (f : Nat → Nat → α → α) :
    (block.mapCells f).cell i j k = f i (j * rights + k) (block.cell i j k) := by
  have column : j * rights + k < block.width := by
    rw [width, sized.lefts_eq, sized.rights_eq]
    exact mul_add_lt_mul left right
  have inside : i * block.width + (j * rights + k) < parents * block.width :=
    mul_add_lt_mul parent column
  have here : i * block.width + (j * rights + k) < block.cells.size := by
    rwa [sized.size_eq_width]
  have row : (i * block.width + (j * rights + k)) / block.width = i := by
    rw [Nat.mul_comm, Nat.mul_add_div (by omega), Nat.div_eq_of_lt column, Nat.add_zero]
  have number : (i * block.width + (j * rights + k)) % block.width = j * rights + k := by
    rw [Nat.mul_add_mod', Nat.mod_eq_of_lt column]
  have same : (block.mapCells f).offset i j k = block.offset i j k := rfl
  simp only [cell, same, sized.offset_eq]
  simp [RuleBlock.mapCells, here, sized.parents_eq, inside, row, number]

theorem Sized.normalize_cells (sized : block.Sized parents lefts rights) {totals : List α}
    (length : totals.length = parents) (threshold : α) :
    Delivers allowed (fun new => new.Sized parents lefts rights ∧
        ∀ i < parents, ∀ j < lefts, ∀ k < rights,
          new.cell i j k = RuleCounts.probability threshold (entry totals i) (block.cell i j k))
      (block.normalize threshold totals) := by
  have fetched : tabulate block.parents (fetch totals) = .ok totals := by
    rw [tabulate_eq_mapM, sized.parents_eq, ← length,
      mapM_eq_map fun n below => fetch_eq_entry (List.mem_range.mp below)]
    congr 1
    apply List.ext_getElem?
    intro n
    by_cases below : n < totals.length <;> simp [entry, below]
  have enough : ¬block.cells.size < block.parents * block.width := by
    rw [sized.size_eq_width, sized.parents_eq]
    exact Nat.lt_irrefl _
  simp only [normalize, fetched, ok_bind, if_neg enough]
  refine ⟨sized.mapCells _, fun i parent j left k right => ?_⟩
  exact sized.cell_mapCells parent left right _

end RuleBlock

namespace RuleTable

variable {table : RuleTable α} {key : Production} {block : RuleBlock α}

/-- In a table in order, sums over the rules are sums over the entries. -/
theorem Ordered.parentSum_eq (ordered : table.Ordered) (state s : Nat) :
    table.parentSum state s = (table.entries.map fun (key, block) =>
      if key.parent = state then
        ∑ j ∈ range block.lefts, ∑ k ∈ range block.rights, block.cell s j k else 0).sum := by
  rw [parentSum, sum_filter, keys, List.sum_toFinset _ ordered.nodup, List.map_map]
  congr 1
  apply List.map_congr_left
  rintro ⟨key, block⟩ member
  have found := ordered.find? member
  simp only [Function.comp_apply, sumRow, found, Option.elim, cell]

theorem parentSum_nonneg (nonneg : ∀ key i j k, 0 ≤ table.cell key i j k) (state s : Nat) :
    0 ≤ table.parentSum state s := by
  refine sum_nonneg fun key _ => ?_
  unfold sumRow
  cases table.find? key with
  | none => exact le_rfl
  | some block => exact sum_nonneg fun j _ => sum_nonneg fun k _ => nonneg key s j k

end RuleTable

namespace RuleCounts

variable {counts : RuleCounts α} {table : RuleTable α} {key : Production} {block : RuleBlock α}
  {parents lefts rights i j k : Nat}

theorem addTotals_grows {rows : List (List α)} (sized : List.Forall₂ HasSize rows substates)
    (fits : block.Fits key substates) {state size s : Nat}
    (known : substates[state]? = some size) (below : s < size) :
    Delivers allowed
      (Grows (List.Forall₂ HasSize · substates) (tally · state s) rows
        (if key.parent = state then
          ∑ j ∈ range block.lefts, ∑ k ∈ range block.rights, block.cell s j k else 0))
      (addTotals rows (key, block)) := by
  obtain ⟨parents, lefts, rights, dimensions, blockSized⟩ := fits
  have parentFound := Production.parent_of_dimensions dimensions
  obtain ⟨row, foundRow, rowSized⟩ := exists_of_forall₂ sized parentFound
  have added : Delivers allowed (fun values => values.length = row.length ∧
      ∀ (n : Nat) value, values[n]? = some value →
        value = entry row n + ∑ j ∈ range lefts, ∑ k ∈ range rights, block.cell n j k)
      (row.zipIdx.mapM fun entry => return entry.1 + (← block.rowTotal entry.2)) := by
    apply Delivers.mapM_zipIdx
    intro total n found
    have inside : n < parents := rowSized ▸ (List.getElem?_eq_some_iff.mp found).1
    simp only [blockSized.rowTotal_eq inside, ok_bind]
    simp [entry, found]
  unfold addTotals
  simp only [fetch_eq_ok_iff.mpr foundRow]
  refine added.bind ?_
  rintro values ⟨length, each⟩
  constructor
  · exact forall₂_set sized parentFound (length.trans rowSized)
  · show tally (rows.set key.parent values) state s = _
    have inRows := (List.getElem?_eq_some_iff.mp foundRow).1
    by_cases here : key.parent = state
    · subst here
      obtain rfl := Option.some.inj (known.symm.trans parentFound)
      have inValues : s < values.length := by rwa [length, rowSized]
      have value := each s _ (List.getElem?_eq_getElem inValues)
      simp only [tally, List.getElem?_set_self inRows, foundRow, Option.getD_some, if_true,
        blockSized.lefts_eq, blockSized.rights_eq]
      rw [← value]
      simp [entry, inValues]
    · simp only [tally, List.getElem?_set_ne here, if_neg here, add_zero]

/-- The total of a substate is what the rules of its category have in their rows for it. -/
theorem totals_eq (fits : table.Fits substates) (ordered : table.Ordered) {zeros : List (List α)}
    (start : substates.mapM (fill · (0 : α)) = .ok zeros) :
    ∃ rows, totals substates table = .ok rows ∧ List.Forall₂ HasSize rows substates ∧
      ∀ (state size : Nat), substates[state]? = some size → ∀ s < size,
        tally rows state s = table.parentSum state s := by
  have sized : List.Forall₂ HasSize zeros substates :=
    (delivers_zero_rows substates any_overflow).of_ok start
  have added : Delivers Never (List.Forall₂ HasSize · substates)
      (table.entries.foldlM addTotals zeros) :=
    Delivers.foldlM sized fun _ entry member sized => addTotals_delivers sized (fits entry member)
  obtain ⟨rows, done, rowsSized⟩ := delivers_never_iff.mp added
  refine ⟨rows, by simp only [totals, start, ok_bind, done], rowsSized, ?_⟩
  intro state size known s below
  have grows : Delivers Any
      (Grows (List.Forall₂ HasSize · substates) (tally · state s) zeros
        (table.entries.map fun (key, block) => if key.parent = state then
          ∑ j ∈ range block.lefts, ∑ k ∈ range block.rights, block.cell s j k else 0).sum)
      (table.entries.foldlM addTotals zeros) :=
    Delivers.foldlM_grows _ sized fun rows entry member sized =>
      addTotals_grows sized (fits entry member) known below
  rw [(grows.of_ok done).grown, tally_zeros start, zero_add, ordered.parentSum_eq]

/-- Nothing is pruned that is not negative, if the threshold is not positive. -/
theorem probability_eq {threshold total count : α} (keeps : threshold ≤ 0) (totaled : 0 ≤ total)
    (counted : 0 ≤ count) : probability threshold total count = count / total := by
  have share : (if 0 < total then count / total else 0) = count / total := by
    rcases totaled.eq_or_lt with rfl | positive
    · simp
    · exact if_pos positive
  have kept : ¬count / total < threshold :=
    not_lt.mpr (keeps.trans (div_nonneg counted totaled))
  simp only [probability, share]
  exact if_neg kept

theorem normalizeRule_cells {rows : List (List α)}
    (sized : List.Forall₂ HasSize rows counts.substates) (plain : counts.smoothing = .none)
    (dimensions : key.dimensions counts.substates = .ok (parents, lefts, rights))
    (blockSized : block.Sized parents lefts rights) :
    Delivers Never (fun new => new.Sized parents lefts rights ∧
        ∀ i < parents, ∀ j < lefts, ∀ k < rights, new.cell i j k =
          probability counts.threshold (tally rows key.parent i) (block.cell i j k))
      (counts.normalizeRule rows key block) := by
  obtain ⟨row, found, rowSized⟩ :=
    exists_of_forall₂ sized (Production.parent_of_dimensions dimensions)
  have unsmoothed : ¬counts.smoothing.isActive := by simp [plain, Smoothing.isActive]
  simp only [normalizeRule, fetch_eq_ok_iff.mpr found, ok_bind, if_neg unsmoothed, tally, found,
    Option.getD_some]
  exact (blockSized.normalize_cells rowSized counts.threshold).bind fun _ cells => cells

theorem normalize_keys {grammar : Grammar α} (normalized : counts.normalize = .ok grammar) :
    grammar.rules.entries.map Prod.fst = counts.rules.entries.map Prod.fst := by
  obtain ⟨totals, -, normalized⟩ := bind_eq_ok_iff.mp normalized
  obtain ⟨rules, mapped, done⟩ := bind_eq_ok_iff.mp normalized
  obtain rfl := Except.ok.inj done
  exact RuleTable.mapScoresM_keys mapped

/-- Normalization is carried out rule by rule, whatever it comes to for a single rule. -/
theorem normalize_replaces (fits : counts.rules.Fits counts.substates) {rows : List (List α)}
    (totaled : totals counts.substates counts.rules = .ok rows)
    (replaced : Production → Nat → Nat → Nat → RuleBlock α → RuleBlock α → Prop)
    (each : ∀ key parents lefts rights block,
      key.dimensions counts.substates = .ok (parents, lefts, rights) →
      block.Sized parents lefts rights →
        Delivers Never (fun new => new.Sized parents lefts rights ∧
          replaced key parents lefts rights block new) (counts.normalizeRule rows key block)) :
    ∃ grammar, counts.normalize = .ok grammar ∧
      grammar.toGrammarFrame = counts.toGrammarFrame ∧
      grammar.rules.Fits counts.substates ∧
      ∀ key parents lefts rights, key.dimensions counts.substates = .ok (parents, lefts, rights) →
        match counts.rules.find? key with
        | none => grammar.rules.find? key = none
        | some block => ∃ new, grammar.rules.find? key = some new ∧
            replaced key parents lefts rights block new := by
  have all : Delivers Never (·.Fits counts.substates)
      (counts.rules.mapScoresM (counts.normalizeRule rows)) := by
    apply mapScoresM_delivers
    intro entry member
    obtain ⟨parents, lefts, rights, dimensions, sized⟩ := fits entry member
    exact (each _ _ _ _ _ dimensions sized).mono fun _ holds => holds.1.fits dimensions
  obtain ⟨rules, mapped, rulesFit⟩ := delivers_never_iff.mp all
  refine ⟨⟨counts.toGrammarFrame, rules⟩, ?_, rfl, rulesFit, ?_⟩
  · simp only [normalize, totaled, mapped, ok_bind]
    rfl
  · intro key parents lefts rights dimensions
    have found := find?_mapScoresM mapped key
    cases known : counts.rules.find? key with
    | none =>
      rw [known] at found
      exact found
    | some block =>
      rw [known] at found
      obtain ⟨new, normalized, present⟩ := found
      have sized := (fits.find? known).sized dimensions
      exact ⟨new, present, ((each _ _ _ _ _ dimensions sized).of_ok normalized).2⟩

/-- Normalized counts are shares of the totals of their rows. -/
theorem normalize_eq (fits : counts.rules.Fits counts.substates) (ordered : counts.rules.Ordered)
    (plain : counts.smoothing = .none) (keeps : counts.threshold ≤ 0)
    (counted : ∀ key i j k, 0 ≤ counts.rules.cell key i j k) {zeros : List (List α)}
    (start : counts.substates.mapM (fill · (0 : α)) = .ok zeros) :
    ∃ grammar, counts.normalize = .ok grammar ∧
      grammar.toGrammarFrame = counts.toGrammarFrame ∧
      grammar.rules.Fits counts.substates ∧
      ∀ key parents lefts rights, key.dimensions counts.substates = .ok (parents, lefts, rights) →
        ∀ i < parents, ∀ j < lefts, ∀ k < rights,
          grammar.rules.cell key i j k =
            counts.rules.cell key i j k / counts.rules.parentSum key.parent i := by
  obtain ⟨rows, totaled, sized, totals⟩ := totals_eq fits ordered start
  obtain ⟨grammar, normalized, frame, rulesFit, replaced⟩ := normalize_replaces fits totaled _
    fun _ _ _ _ _ dimensions blockSized => normalizeRule_cells sized plain dimensions blockSized
  refine ⟨grammar, normalized, frame, rulesFit, ?_⟩
  intro key parents lefts rights dimensions i parent j left k right
  have found := replaced key parents lefts rights dimensions
  cases known : counts.rules.find? key with
  | none =>
    rw [known] at found
    rw [RuleTable.cell_of_absent found, RuleTable.cell_of_absent known, zero_div]
  | some block =>
    rw [known] at found
    obtain ⟨new, present, cells⟩ := found
    have count := counted key i j k
    rw [RuleTable.cell_of_find? known] at count ⊢
    rw [RuleTable.cell_of_find? present, cells i parent j left k right,
      totals _ _ (Production.parent_of_dimensions dimensions) i parent]
    apply probability_eq keeps _ count
    exact RuleTable.parentSum_nonneg counted _ _

theorem estimate_zero {γ : Type} [Draws γ α] {grammar : Grammar α}
    (normalized : counts.normalize = .ok grammar) (stream : γ) :
    counts.estimate 0 stream = .ok (grammar, stream) := by
  have quiet : ¬(0 : α) < 0 := lt_irrefl 0
  simp only [estimate, if_neg quiet, normalized, ok_bind]
  rfl

end RuleCounts

end LatentGrammar
