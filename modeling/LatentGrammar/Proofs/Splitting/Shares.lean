import LatentGrammar.Proofs.Consistency.Split
import LatentGrammar.Proofs.Scoring.Sums

namespace LatentGrammar

open Finset

/-- Numbers taken in families of equal size, each with the value of its family. -/
theorem sum_range_families {K : Type} [AddCommMonoid K] (families : Nat) {size : Nat}
    (some : 0 < size) (f : Nat → K) :
    ∑ n ∈ range (families * size), f (n / size) = size • ∑ n ∈ range families, f n := by
  have family (n column : Nat) (below : column ∈ range size) :
      f ((n * size + column) / size) = f n := by
    rw [Nat.mul_comm, Nat.mul_add_div some, Nat.div_eq_of_lt (mem_range.mp below), Nat.add_zero]
  rw [sum_range_mul, smul_sum]
  apply sum_congr rfl
  intro n _
  rw [sum_congr rfl (family n), sum_const, card_range]

theorem getElem?_flatten {β : Type} {rows : List (List β)} {width : Nat}
    (each : ∀ row ∈ rows, row.length = width) (i : Nat) {j : Nat} (below : j < width) :
    rows.flatten[i * width + j]? = rows[i]?.bind (·[j]?) := by
  induction rows generalizing i with
  | nil => simp
  | cons row rest ih =>
    obtain ⟨here, later⟩ := List.forall_mem_cons.mp each
    rw [List.flatten_cons]
    cases i with
    | zero =>
      rw [Nat.zero_mul, Nat.zero_add, List.getElem?_append_left (here ▸ below)]
      rfl
    | succ i =>
      have beyond : row.length ≤ (i + 1) * width + j := by
        rw [here, Nat.succ_mul]
        omega
      have offset : (i + 1) * width + j - row.length = i * width + j := by
        rw [here, Nat.succ_mul]
        omega
      rw [List.getElem?_append_right beyond, offset, ih later]
      rfl

/-- Rows of equal length that are tabulated and joined are found one after the other. -/
theorem delivers_joined {β : Type} {allowed : Fault → Prop} {f : Nat → Except Fault (List β)}
    {property : Nat → List β → Prop} {count width : Nat}
    (each : ∀ n < count, Delivers allowed (fun row => row.length = width ∧ property n row) (f n)) :
    Delivers allowed (fun rows => rows.flatten.length = count * width ∧
        ∀ i < count, ∃ row, property i row ∧
          ∀ j < width, rows.flatten[i * width + j]? = row[j]?)
      (tabulate count f) := by
  apply (Delivers.tabulate each).mono
  intro rows all
  have length : rows.length = count := by simpa using all.length_eq.symm
  have wide : ∀ row ∈ rows, row.length = width := by
    intro row member
    obtain ⟨n, found⟩ := List.getElem?_of_mem member
    obtain ⟨-, -, same, -⟩ := exists_of_forall₂ all found
    exact same
  refine ⟨by rw [length_flatten_of_forall wide, length], fun i below => ?_⟩
  have found : rows[i]? = some rows[i] := List.getElem?_eq_getElem (length ▸ below)
  obtain ⟨n, numbered, -, holds⟩ := exists_of_forall₂ all found
  rw [List.getElem?_range below] at numbered
  obtain rfl := Option.some.inj numbered
  refine ⟨_, holds, fun j inside => ?_⟩
  rw [getElem?_flatten wide i inside, found]
  rfl

variable {α γ : Type} [ExactScalar α] [Draws γ α]

theorem perturbation_zero (stream : γ) : (perturbation (0 : α) stream).1 = 1 := by
  show (1 : α) + 0 / _ * _ = 1
  rw [zero_div, zero_mul, add_zero]

theorem perturbAll_zero (values : List α) (stream : γ) :
    (perturbAll 0 values stream).1 = values := by
  induction values generalizing stream with
  | nil => rfl
  | cons value rest ih => simp only [perturbAll, ih, perturbation_zero, mul_one]

/-- The counts of a category's names for families of substates. -/
def NameTable.share (factor : Nat) (table : NameTable (List α)) : NameTable (List α) :=
  table.map fun (name, counts) => (name, shareCounts factor counts)

theorem splitNames_zero (factor : Nat) (table : NameTable (List α)) (stream : γ) :
    (splitNames factor 0 table stream).1 = table.share factor := by
  induction table generalizing stream with
  | nil => rfl
  | cons entry rest ih =>
    simp only [NameTable.share, splitNames, perturbAll_zero, List.map_cons] at ih ⊢
    rw [ih]

theorem splitTables_zero (entries : List (Nat × NameTable (List α))) (stream : γ) :
    (splitTables 0 entries stream).1 = entries.map fun (factor, table) => table.share factor := by
  induction entries generalizing stream with
  | nil => rfl
  | cons entry rest ih => simp only [splitTables, splitNames_zero, List.map_cons, ih]

/-- Every cell has an equal share of the cell of its substates' ancestors. -/
def RuleTable.Shares (new old : RuleTable α) (substates factors : List Nat) : Prop :=
  ∀ key parents lefts rights fp fl fr, key.dimensions substates = .ok (parents, lefts, rights) →
    key.growthFactors factors = .ok (fp, fl, fr) →
      ∀ i < parents * fp, ∀ j < lefts * fl, ∀ k < rights * fr,
        new.cell key i j k = old.cell key (i / fp) (j / fl) (k / fr) / ((fl * fr : Nat) : α)

variable {parents lefts rights fp fl fr : Nat}

/-- The cells of a split rule, row by row, if every cell that is shared out can be read. -/
theorem RuleBlock.splitCells_reads {allowed : Fault → Prop} {old : RuleBlock α}
    (overflow : allowed .overflow)
    (reads : ∀ i < parents, ∀ j < lefts, ∀ k < rights,
      Delivers allowed (· = old.cell (i / fp) (j / fl) (k / fr))
        (old.get (i / fp) (j / fl) (k / fr))) :
    Delivers allowed (fun cells => ∀ i < parents, ∀ j < lefts, ∀ k < rights,
        cells[(i * lefts + j) * rights + k]? =
          some (old.cell (i / fp) (j / fl) (k / fr) / ((fl * fr : Nat) : α)))
      (old.splitCells (fp, fl, fr) (parents, lefts, rights)) := by
  let share (i j k : Nat) : α := old.cell (i / fp) (j / fl) (k / fr) / ((fl * fr : Nat) : α)
  apply (cellCount_delivers _ _ _ overflow).bind
  rintro _ rfl
  refine Delivers.ite (fun none i parent j left k right => ?_) fun _ => ?_
  · have some := Nat.mul_pos (Nat.mul_pos (Nat.zero_lt_of_lt parent) (Nat.zero_lt_of_lt left))
      (Nat.zero_lt_of_lt right)
    exact absurd (eq_of_beq none) some.ne'
  -- A row is made of one column for each left substate, a column of one cell for each right one.
  have column (i j : Nat) (parent : i < parents) (left : j < lefts) :
      Delivers allowed (fun column => column.length = rights ∧
          ∀ k < rights, column[k]? = some (share i j k))
        (tabulate rights fun k => do
          return (← old.get (i / fp) (j / fl) (k / fr)) / ((fl * fr : Nat) : α)) := by
    have cell : ∀ k ∈ List.range rights, Delivers allowed (· = share i j k) (do
        return (← old.get (i / fp) (j / fl) (k / fr)) / ((fl * fr : Nat) : α)) := fun k member =>
      (reads i parent j left k (List.mem_range.mp member)).bind fun _ same => same ▸ rfl
    rw [tabulate_eq_mapM]
    refine (Delivers.mapM_eq cell).mono ?_
    rintro _ rfl
    exact ⟨by simp, fun k right => by simp [right]⟩
  have row (i : Nat) (parent : i < parents) :
      Delivers allowed (fun row => row.length = lefts * rights ∧
          ∀ j < lefts, ∀ k < rights, row[j * rights + k]? = some (share i j k))
        (do
          let columns ← tabulate lefts fun j => tabulate rights fun k => do
            return (← old.get (i / fp) (j / fl) (k / fr)) / ((fl * fr : Nat) : α)
          return columns.flatten) := by
    refine (delivers_joined fun j left => column i j parent left).bind
      fun columns ⟨length, entries⟩ => ⟨length, fun j left k right => ?_⟩
    obtain ⟨column, shares, found⟩ := entries j left
    rw [found k right, shares k right]
  refine (delivers_joined row).bind fun rows ⟨_, entries⟩ i parent j left k right => ?_
  obtain ⟨row, shares, found⟩ := entries i parent
  have place : (i * lefts + j) * rights + k = i * (lefts * rights) + (j * rights + k) := by ring
  rw [place, found _ (RuleBlock.mul_add_lt_mul left right), shares j left k right]

theorem RuleBlock.splitCells_entries {old : RuleBlock α} (sized : old.Sized parents lefts rights) :
    Delivers Overflow (fun cells => ∀ i < parents * fp, ∀ j < lefts * fl, ∀ k < rights * fr,
        cells[(i * (lefts * fl) + j) * (rights * fr) + k]? =
          some (old.cell (i / fp) (j / fl) (k / fr) / ((fl * fr : Nat) : α)))
      (old.splitCells (fp, fl, fr) (parents * fp, lefts * fl, rights * fr)) := by
  refine splitCells_reads overflow_overflow fun i parent j left k right => ?_
  rw [sized.get_eq (Nat.div_lt_of_lt_mul (Nat.mul_comm _ fp ▸ parent))
    (Nat.div_lt_of_lt_mul (Nat.mul_comm _ fl ▸ left))
    (Nat.div_lt_of_lt_mul (Nat.mul_comm _ fr ▸ right))]
  rfl

theorem RuleBlock.split_cell {old : RuleBlock α} (sized : old.Sized parents lefts rights)
    (stream : γ) :
    Delivers Overflow (fun result => ∀ i < parents * fp, ∀ j < lefts * fl, ∀ k < rights * fr,
        result.1.cell i j k = old.cell (i / fp) (j / fl) (k / fr) / ((fl * fr : Nat) : α))
      (old.split (fp, fl, fr) (parents * fp, lefts * fl, rights * fr) 0 stream) := by
  refine (splitCells_entries sized).bind fun cells entries i parent j left k right => ?_
  simp only [RuleBlock.cell, RuleBlock.offset, perturbAll_zero, List.getElem?_toArray,
    entries i parent j left k right, Option.getD_some]

/-- A rule before and after a split without noise: every new cell is a share of its ancestor. -/
structure SharedRule (substates factors : List Nat) (old new : Production × RuleBlock α) :
    Prop where
  key_eq : new.1 = old.1
  shares : ∃ parents lefts rights fp fl fr, old.1.dimensions substates = .ok (parents, lefts, rights) ∧
    old.1.growthFactors factors = .ok (fp, fl, fr) ∧ old.2.Sized parents lefts rights ∧
    new.2.Sized (parents * fp) (lefts * fl) (rights * fr) ∧
    ∀ i < parents * fp, ∀ j < lefts * fl, ∀ k < rights * fr,
      new.2.cell i j k = old.2.cell (i / fp) (j / fl) (k / fr) / ((fl * fr : Nat) : α)

theorem splitRules_shared {entries : List (Production × RuleBlock α)}
    {substates factors : List Nat} {root : Nat}
    (fits : ∀ entry ∈ entries, entry.2.Fits entry.1 substates)
    (grow : FactorsFit factors substates root) (stream : γ) :
    Delivers Overflow (fun result => List.Forall₂ (SharedRule substates factors) entries result.1)
      (splitRules factors (products substates factors) 0 entries stream) := by
  induction entries generalizing stream with
  | nil => exact .nil
  | cons entry rest ih =>
    obtain ⟨key, old⟩ := entry
    obtain ⟨here, below⟩ := List.forall_mem_cons.mp fits
    obtain ⟨parents, lefts, rights, dimensions, sized⟩ := here
    obtain ⟨fp, fl, fr, grows, grown⟩ := Production.growthFactors_eq grow dimensions
    simp only [splitRules, grows, grown]
    refine (RuleBlock.split_delivers sized 0 stream overflow_overflow).bind_ok
      fun first done newSized => ?_
    have shares := (RuleBlock.split_cell sized _).of_ok done
    refine (ih below first.2).bind fun later all => .cons ?_ all
    exact ⟨rfl, parents, lefts, rights, fp, fl, fr, dimensions, grows, sized, newSized, shares⟩

theorem RuleTable.shares_of_shared {substates factors : List Nat}
    {entries others : List (Production × RuleBlock α)}
    (all : List.Forall₂ (SharedRule substates factors) entries others) :
    RuleTable.Shares ⟨others⟩ ⟨entries⟩ substates factors := by
  intro key parents lefts rights fp fl fr dimensions grows i parent j left k right
  induction all with
  | nil => exact (zero_div _).symm
  | @cons entry other _ _ here _ ih =>
    obtain ⟨_, old⟩ := entry
    obtain ⟨listed, block⟩ := other
    obtain ⟨rfl, _, _, _, _, _, _, dimensions', grows', -, -, shares⟩ := here
    by_cases same : key = listed
    · subst same
      cases dimensions.symm.trans dimensions'
      cases grows.symm.trans grows'
      simpa [RuleTable.cell, RuleTable.find?] using shares i parent j left k right
    · have different : (key == listed) = false := beq_false_of_ne same
      simpa [RuleTable.cell, RuleTable.find?, List.lookup_cons, different] using ih

/-- A grammar that was split without noise has the rules of the old one, each of them shared. -/
theorem Grammar.split_shared {grammar : Grammar α} {factors counts : List Nat} {unbounded : Bool}
    {later : γ} {split : Grammar α} {stream : γ}
    (rules : grammar.rules.Fits grammar.substates)
    (grows : growthFactors grammar.substates grammar.root counts unbounded = .ok factors)
    (success : grammar.split 0 counts unbounded stream = .ok (split, later)) :
    List.Forall₂ (SharedRule grammar.substates factors) grammar.rules.entries
      split.rules.entries := by
  have grow := (growthFactors_delivers grammar.substates grammar.root counts unbounded
    any_overflow).of_ok grows
  unfold Grammar.split at success
  rw [grows, ok_bind] at success
  obtain ⟨substates, grown, success⟩ := bind_eq_ok_iff.mp success
  obtain rfl := (multiply_delivers _ factors any_overflow).of_ok grown
  obtain ⟨⟨entries, rest⟩, done, success⟩ := bind_eq_ok_iff.mp success
  obtain ⟨rfl, -⟩ := Prod.mk.inj (Except.ok.inj success)
  exact (splitRules_shared rules grow stream).of_ok done

theorem Grammar.split_shares {grammar : Grammar α} {factors counts : List Nat} {unbounded : Bool}
    {later : γ} {split : Grammar α} {stream : γ}
    (rules : grammar.rules.Fits grammar.substates)
    (grows : growthFactors grammar.substates grammar.root counts unbounded = .ok factors)
    (success : grammar.split 0 counts unbounded stream = .ok (split, later)) :
    split.rules.Shares grammar.rules grammar.substates factors :=
  RuleTable.shares_of_shared (split_shared rules grows success)

variable {factor : Nat} {values totals : List α}

theorem shareCounts_cons (value : α) (values : List α) :
    shareCounts factor (value :: values) =
      List.replicate factor (value / (factor : α)) ++ shareCounts factor values := rfl

theorem entry_shareCounts {s : Nat} (some : 0 < factor) :
    entry (shareCounts factor values) s = entry values (s / factor) / (factor : α) := by
  induction values generalizing s with
  | nil => simp [entry, shareCounts]
  | cons value rest ih =>
    rw [shareCounts_cons]
    by_cases first : s < factor
    · simp [entry, List.getElem?_append_left, first, Nat.div_eq_of_lt first]
    · obtain ⟨n, rfl⟩ := Nat.exists_eq_add_of_le (Nat.le_of_not_lt first)
      have ancestor : (factor + n) / factor = n / factor + 1 := Nat.add_div_left n some
      rw [ancestor, entry, List.getElem?_append_right (by simp)]
      simpa [entry] using ih (s := n)

theorem addInto_replicate (factor : Nat) (total value : α) (totals values : List α) :
    Scalar.addInto (List.replicate factor total ++ totals) (List.replicate factor value ++ values) =
      List.replicate factor (total + value) ++ Scalar.addInto totals values := by
  induction factor with
  | zero => rfl
  | succ factor ih => simp only [List.replicate_succ, List.cons_append, Scalar.addInto, ih]

theorem addInto_shareCounts (totals values : List α) :
    Scalar.addInto (shareCounts factor totals) (shareCounts factor values) =
      shareCounts factor (Scalar.addInto totals values) := by
  induction totals generalizing values with
  | nil => rfl
  | cons total totals ih =>
    cases values with
    | nil =>
      have kept (list : List α) : Scalar.addInto list [] = list := by cases list <;> rfl
      rw [show shareCounts factor ([] : List α) = [] from rfl, kept, kept]
    | cons value values =>
      rw [shareCounts_cons, shareCounts_cons, addInto_replicate, ih, ← add_div]
      rfl

theorem columnSums_share (size : Nat) (table : NameTable (List α)) :
    EmissionTables.columnSums (size * factor) (table.share factor) =
      shareCounts factor (EmissionTables.columnSums size table) := by
  have start : List.replicate (size * factor) (0 : α) =
      shareCounts factor (List.replicate size 0) := by
    induction size with
    | zero => simp [shareCounts]
    | succ size ih =>
      rw [List.replicate_succ, shareCounts_cons, ← ih, zero_div, List.replicate_append_replicate,
        Nat.succ_mul, Nat.add_comm]
  unfold EmissionTables.columnSums
  rw [start]
  generalize List.replicate size (0 : α) = totals
  induction table generalizing totals with
  | nil => rfl
  | cons entry rest ih =>
    simp only [NameTable.share, List.map_cons, List.foldl_cons, addInto_shareCounts] at ih ⊢
    exact ih _

end LatentGrammar
