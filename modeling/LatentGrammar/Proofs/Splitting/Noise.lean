import LatentGrammar.Proofs.Bookkeeping.Lexicons
import LatentGrammar.Proofs.Reestimation.Distribution
import LatentGrammar.Proofs.Splitting.Refinement

namespace LatentGrammar

variable {α γ : Type} [ExactScalar α] [Draws γ α] {randomness : α} {factor : Nat}

/-- The value differs from a share by noise of up to `randomness` percent. -/
def Noisy (randomness share value : α) : Prop :=
  ∃ factor, |factor - 1| ≤ randomness / 100 ∧ value = share * factor

namespace Noisy

variable {share value : α}

theorem zero (low : 0 ≤ randomness) : Noisy randomness (0 : α) 0 := by
  refine ⟨1, ?_, (zero_mul 1).symm⟩
  rw [sub_self, abs_zero]
  exact div_nonneg low (by norm_num)

theorem nonneg (noisy : Noisy randomness share value) (high : randomness ≤ 100)
    (counted : 0 ≤ share) : 0 ≤ value := by
  obtain ⟨factor, near, rfl⟩ := noisy
  have part : randomness / 100 ≤ 1 := (div_le_one (by norm_num)).mpr high
  have least := (abs_le.mp near).1
  exact mul_nonneg counted (by linarith)

/-- Noise of less than all of a share leaves something of it. -/
theorem eq_zero_iff (noisy : Noisy randomness share value) (high : randomness < 100) :
    value = 0 ↔ share = 0 := by
  obtain ⟨factor, near, rfl⟩ := noisy
  have part : randomness / 100 < 1 := (div_lt_one (by norm_num)).mpr high
  have least := (abs_le.mp near).1
  have positive : 0 < factor := by linarith
  rw [mul_eq_zero, or_iff_left positive.ne']

end Noisy

section Percent

variable (unit : RuleCounts.UnitDraws γ) (low : 0 ≤ randomness)

include unit low

theorem perturbation_near (stream : γ) :
    |(perturbation randomness stream).1 - 1| ≤ randomness / 100 := by
  obtain ⟨least, greatest⟩ := unit stream
  have share : 0 ≤ randomness / ((100 : Nat) : α) := div_nonneg low (Nat.cast_nonneg _)
  have deviation : (perturbation randomness stream).1 - 1 =
      randomness / ((100 : Nat) : α) * ((Draws.draw stream).1 * ((2 : Nat) : α) - 1) :=
    add_sub_cancel_left _ _
  have centered : |(Draws.draw stream).1 * ((2 : Nat) : α) - 1| ≤ 1 := by
    rw [Nat.cast_ofNat, abs_le]
    constructor <;> linarith
  rw [deviation, abs_mul, abs_of_nonneg share, Nat.cast_ofNat] at *
  exact mul_le_of_le_one_right share centered

theorem perturbAll_noisy (values : List α) (stream : γ) :
    List.Forall₂ (Noisy randomness) values (perturbAll randomness values stream).1 := by
  induction values generalizing stream with
  | nil => exact .nil
  | cons value rest ih => exact .cons ⟨_, perturbation_near unit low stream, rfl⟩ (ih _)

theorem perturbAll_entry (values : List α) (stream : γ) (n : Nat) :
    Noisy randomness (entry values n) (entry (perturbAll randomness values stream).1 n) := by
  have noisy := perturbAll_noisy unit low values stream
  generalize (perturbAll randomness values stream).1 = perturbed at noisy
  induction noisy generalizing n with
  | nil => exact .zero low
  | cons here _ ih =>
    cases n with
    | zero => exact here
    | succ n => exact ih n

end Percent

theorem RuleBlock.get_cell (block : RuleBlock α) (i j k : Nat) :
    Delivers Any (· = block.cell i j k) (block.get i j k) := by
  unfold RuleBlock.get
  refine Delivers.ite (fun _ => trivial) fun _ => ?_
  cases found : block.cells[block.offset i j k]? with
  | none => trivial
  | some value => simp [RuleBlock.cell, found]

/-- Every cell is a share of the cell of its substates' ancestors, with noise. The substates are those
after the split. -/
def RuleTable.NoisyShares (randomness : α) (new old : RuleTable α) (substates factors : List Nat) :
    Prop :=
  ∀ key parents lefts rights fp fl fr, key.dimensions substates = .ok (parents, lefts, rights) →
    key.growthFactors factors = .ok (fp, fl, fr) →
      ∀ i < parents, ∀ j < lefts, ∀ k < rights,
        Noisy randomness (old.cell key (i / fp) (j / fl) (k / fr) / ((fl * fr : Nat) : α))
          (new.cell key i j k)

section Percent

variable (unit : RuleCounts.UnitDraws γ) (low : 0 ≤ randomness)

include unit low

theorem RuleBlock.split_noisy (old : RuleBlock α) {parents lefts rights fp fl fr : Nat}
    (stream : γ) :
    Delivers Any (fun result => ∀ i < parents, ∀ j < lefts, ∀ k < rights,
        Noisy randomness (old.cell (i / fp) (j / fl) (k / fr) / ((fl * fr : Nat) : α))
          (result.1.cell i j k))
      (old.split (fp, fl, fr) (parents, lefts, rights) randomness stream) := by
  refine (splitCells_reads trivial fun i _ j _ k _ => old.get_cell _ _ _).bind
    fun cells entries i parent j left k right => ?_
  have noisy := perturbAll_entry unit low cells stream ((i * lefts + j) * rights + k)
  simp only [entry, entries i parent j left k right, Option.getD_some] at noisy
  simpa only [RuleBlock.cell, RuleBlock.offset, List.getElem?_toArray] using noisy

theorem splitRules_noisy {entries : List (Production × RuleBlock α)} {substates factors : List Nat}
    (stream : γ) :
    Delivers Any (fun result => RuleTable.NoisyShares randomness ⟨result.1⟩ ⟨entries⟩ substates factors)
      (splitRules factors substates randomness entries stream) := by
  induction entries generalizing stream with
  | nil =>
    intro key parents lefts rights fp fl fr _ _ i _ j _ k _
    rw [show (⟨[]⟩ : RuleTable α).cell key = fun _ _ _ => 0 from rfl, zero_div]
    exact .zero low
  | cons entry rest ih =>
    obtain ⟨listed, old⟩ := entry
    refine (delivers_any _).bind_ok fun grows grown _ => (delivers_any _).bind_ok fun sizes sized _ => ?_
    refine (RuleBlock.split_noisy unit low old stream).bind fun first here => ?_
    refine (ih first.2).bind fun later there => ?_
    intro key parents lefts rights fp fl fr dimensions growth
    by_cases same : key = listed
    · subst same
      obtain rfl := Except.ok.inj (growth.symm.trans grown)
      obtain rfl := Except.ok.inj (dimensions.symm.trans sized)
      simpa [RuleTable.cell, RuleTable.find?] using here
    · have different : (key == listed) = false := beq_false_of_ne same
      simpa [RuleTable.cell, RuleTable.find?, List.lookup_cons, different] using
        there key parents lefts rights fp fl fr dimensions growth

theorem Grammar.split_noisy (grammar : Grammar α) (counts : List Nat) (unbounded : Bool)
    (stream : γ) :
    Delivers Any (fun result => ∃ factors,
        growthFactors grammar.substates grammar.root counts unbounded = .ok factors ∧
        result.1.rules.NoisyShares randomness grammar.rules result.1.substates factors)
      (grammar.split randomness counts unbounded stream) := by
  refine (delivers_any _).bind_ok fun factors grows _ => (delivers_any _).bind fun substates _ => ?_
  exact (splitRules_noisy unit low stream).bind fun _ noisy => ⟨factors, grows, noisy⟩

end Percent

/-- The tables have the same names, and every count is a share of its ancestor's, with noise. -/
def NoisyTable (randomness : α) (factor : Nat) (old new : NameTable (List α)) : Prop :=
  List.Forall₂ (fun old new => new.1 = old.1 ∧
    ∀ s, Noisy randomness (entry old.2 (s / factor) / (factor : α)) (entry new.2 s)) old new

theorem NoisyTable.get? {old new : NameTable (List α)} (noisy : NoisyTable randomness factor old new)
    (low : 0 ≤ randomness) (name : String) (s : Nat) :
    Noisy randomness (entry ((old.get? name).getD []) (s / factor) / (factor : α))
      (entry ((new.get? name).getD []) s) := by
  induction noisy with
  | nil =>
    rw [show entry ((NameTable.get? [] name).getD []) (s / factor) = (0 : α) from rfl, zero_div]
    exact .zero low
  | cons here _ ih =>
    obtain ⟨same, counts⟩ := here
    rw [NameTable.get?_cons, NameTable.get?_cons, same]
    split
    · exact counts s
    · exact ih

omit [ExactScalar α] in
theorem fitTables_of_ok {size : Nat} {tables fitted : List (NameTable (List α))}
    (success : fitTables size tables = .ok fitted) :
    fitted.length = size ∧ ∀ state : Nat, (fitted[state]?).getD [] = (tables[state]?).getD [] := by
  unfold fitTables at success
  split at success
  · next beyond =>
    obtain rfl := Except.ok.inj success
    refine ⟨by simp; omega, fun state => ?_⟩
    by_cases inside : state < size
    · rw [List.getElem?_append, List.getElem?_take_of_lt inside]
      by_cases present : state < tables.length
      · rw [if_pos (by simp [present, inside])]
      · rw [if_neg (by simp; omega), List.getElem?_eq_none (Nat.le_of_not_lt present),
          List.getElem?_replicate]
        split <;> rfl
    · have outside : (tables.take size ++ List.replicate (size - tables.length) [])[state]? = none :=
        List.getElem?_eq_none (by simp; omega)
      rw [outside]
      cases present : tables[state]? with
      | none => rfl
      | some table =>
        have dropped : table ∈ tables.drop size := by
          rw [← Nat.add_sub_cancel' (Nat.le_of_not_lt inside), ← List.getElem?_drop] at present
          exact List.mem_of_getElem? present
        exact (List.isEmpty_iff.mp (List.all_eq_true.mp beyond table dropped)).symm
  · cases success

/-- A lexicon that was split with noise. -/
structure Lexicon.NoisyShares (randomness : α) (split lexicon : Lexicon α) (factors : List Nat) :
    Prop where
  substates_eq : split.substates = products lexicon.substates factors
  tables_eq : split.tables = lexicon.tables.retable split.substates split.tables.wordCounts
    split.tables.unseenSignatureCounts
  words : ∀ (state : Nat) factor, factors[state]? = some factor → NoisyTable randomness factor
    ((lexicon.tables.wordCounts[state]?).getD []) ((split.tables.wordCounts[state]?).getD [])
  signatures : ∀ (state : Nat) factor, factors[state]? = some factor → NoisyTable randomness factor
    ((lexicon.tables.unseenSignatureCounts[state]?).getD [])
    ((split.tables.unseenSignatureCounts[state]?).getD [])

section Percent

variable (unit : RuleCounts.UnitDraws γ) (low : 0 ≤ randomness)

include unit low

theorem splitNames_noisy (some : 0 < factor) (table : NameTable (List α)) (stream : γ) :
    NoisyTable randomness factor table (splitNames factor randomness table stream).1 := by
  induction table generalizing stream with
  | nil => exact .nil
  | cons named rest ih =>
    refine .cons ⟨rfl, fun s => ?_⟩ (ih _)
    rw [← entry_shareCounts some]
    exact perturbAll_entry unit low _ stream s

theorem splitTables_noisy {entries : List (Nat × NameTable (List α))}
    (some : ∀ entry ∈ entries, 0 < entry.1) (stream : γ) :
    List.Forall₂ (fun entry new => NoisyTable randomness entry.1 entry.2 new) entries
      (splitTables randomness entries stream).1 := by
  induction entries generalizing stream with
  | nil => exact .nil
  | cons entry rest ih =>
    obtain ⟨here, later⟩ := List.forall_mem_cons.mp some
    exact .cons (splitNames_noisy unit low here entry.2 stream) (ih later _)

theorem fitted_noisy {factors : List Nat} {tables fitted : List (NameTable (List α))}
    (positive : ∀ factor ∈ factors, 0 < factor)
    (success : fitTables factors.length tables = .ok fitted) (stream : γ) (state : Nat)
    (grows : factors[state]? = some factor) :
    NoisyTable randomness factor ((tables[state]?).getD [])
      (((splitTables randomness (factors.zip fitted) stream).1[state]?).getD []) := by
  obtain ⟨length, same⟩ := fitTables_of_ok success
  have below : state < fitted.length := length ▸ (List.getElem?_eq_some_iff.mp grows).1
  have each : ∀ entry ∈ factors.zip fitted, 0 < entry.1 :=
    fun entry member => positive entry.1 (List.of_mem_zip member).1
  have all := splitTables_noisy unit low each stream
  have pair := zip_getElem? grows (List.getElem?_eq_getElem below)
  obtain ⟨new, found, noisy⟩ := exists_of_forall₂ all.flip pair
  rw [found, ← same, List.getElem?_eq_getElem below]
  exact noisy

theorem Lexicon.split_noisy (lexicon : Lexicon α) (counts : List Nat) (unbounded : Bool)
    (stream : γ) :
    Delivers Any (fun result => ∃ factors,
        growthFactors lexicon.substates lexicon.root counts unbounded = .ok factors ∧
        Lexicon.NoisyShares randomness result.1 lexicon factors)
      (lexicon.split randomness counts unbounded stream) := by
  refine (delivers_any _).bind_ok fun factors grows _ => ?_
  have grow := (growthFactors_delivers lexicon.substates lexicon.root counts unbounded
    any_overflow).of_ok grows
  refine (multiply_delivers lexicon.substates factors any_overflow).bind fun _ same => ?_
  subst same
  have length : (products lexicon.substates factors).length = factors.length :=
    grow.length_products.trans grow.length_eq.symm
  refine (delivers_any _).bind fun _ _ => (delivers_any _).bind_ok fun words fitted _ => ?_
  refine (delivers_any _).bind_ok fun signatures signaturesFitted _ => ?_
  rw [length] at fitted signaturesFitted
  exact ⟨factors, grows, rfl, rfl,
    fun state factor grows => fitted_noisy unit low grow.factors_positive fitted stream state grows,
    fun state factor grows => fitted_noisy unit low grow.factors_positive signaturesFitted _ state grows⟩

end Percent

/-- None of the numbers is negative. -/
def NoneNegative (values : List α) : Prop := ∀ value ∈ values, 0 ≤ value

theorem NoneNegative.entry {values : List α} (counted : NoneNegative values) (n : Nat) :
    0 ≤ entry values n := by
  unfold LatentGrammar.entry
  cases found : values[n]? with
  | none => exact le_rfl
  | some value => exact counted value (List.mem_of_getElem? found)

theorem entry_addInto_eq_ite (totals values : List α) (s : Nat) :
    entry (Scalar.addInto totals values) s =
      if s < totals.length then entry totals s + entry values s else 0 := by
  induction totals generalizing values s with
  | nil => rfl
  | cons total totals ih =>
    cases values with
    | nil =>
      by_cases inside : s < (total :: totals).length
      · simp only [Scalar.addInto, if_pos inside, entry, List.getElem?_nil, Option.getD_none, add_zero]
      · rw [if_neg inside, Scalar.addInto, entry, List.getElem?_eq_none (Nat.le_of_not_lt inside)]
        rfl
    | cons value values =>
      cases s with
      | zero => rfl
      | succ s => simpa [entry, Scalar.addInto] using ih values s

theorem entry_columnSums (size : Nat) (words : NameTable (List α)) (s : Nat) :
    entry (EmissionTables.columnSums size words) s =
      if s < size then NameTable.total (entry · s) words else 0 := by
  have summed (totals : List α) : entry (words.foldl (fun totals entry =>
      Scalar.addInto totals entry.2) totals) s =
        if s < totals.length then entry totals s + NameTable.total (entry · s) words else 0 := by
    induction words generalizing totals with
    | nil =>
      by_cases inside : s < totals.length
      · simp [NameTable.total, inside]
      · simp [entry, inside]
    | cons named rest ih =>
      rw [List.foldl_cons, ih, Scalar.length_addInto, entry_addInto_eq_ite]
      split
      · rw [add_assoc]
        rfl
      · rfl
  rw [EmissionTables.columnSums, summed, List.length_replicate, entry_replicate_zero, zero_add]

theorem tally_columnSums (substates : List Nat) (tables : List (NameTable (List α))) (state s : Nat) :
    tally ((substates.zip tables).map fun (size, words) => EmissionTables.columnSums size words)
        state s =
      if s < (substates[state]?).getD 0 then
        NameTable.total (entry · s) ((tables[state]?).getD []) else 0 := by
  rw [tally, List.getElem?_map, List.zip_eq_zipWith, List.getElem?_zipWith]
  cases known : substates[state]? with
  | none => rfl
  | some size =>
    cases present : tables[state]? with
    | none => exact (ite_self _).symm
    | some table => exact entry_columnSums size table s

/-- A noisy share of a part is zero exactly where the whole is. -/
theorem Noisy.eq_zero_iff_of_div {parts : Nat} {whole value : α} (some : 0 < parts)
    (noisy : Noisy randomness (whole / (parts : α)) value) (high : randomness < 100) :
    value = 0 ↔ whole = 0 := by
  rw [noisy.eq_zero_iff high, div_eq_zero_iff, or_iff_left (Nat.cast_ne_zero.mpr some.ne')]

/-- The cells of a rule are zero exactly where those of their substates' ancestors are. -/
def RuleTable.ZerosOf (new old : RuleTable α) (substates factors : List Nat) : Prop :=
  ∀ key parents lefts rights fp fl fr, key.dimensions substates = .ok (parents, lefts, rights) →
    key.growthFactors factors = .ok (fp, fl, fr) → ∀ i < parents, ∀ j < lefts, ∀ k < rights,
      (new.cell key i j k = 0 ↔ old.cell key (i / fp) (j / fl) (k / fr) = 0)

theorem Production.growthFactors_positive {key : Production} {factors : List Nat} {fp fl fr : Nat}
    (positive : ∀ factor ∈ factors, 0 < factor)
    (grows : key.growthFactors factors = .ok (fp, fl, fr)) : 0 < fl ∧ 0 < fr := by
  cases key with
  | unary parent child =>
    obtain ⟨-, left, rfl⟩ := Production.dimensions_unary_iff.mp grows
    exact ⟨positive fl (List.mem_of_getElem? left), Nat.one_pos⟩
  | binary parent left right =>
    obtain ⟨-, foundLeft, foundRight⟩ := Production.dimensions_binary_iff.mp grows
    exact ⟨positive fl (List.mem_of_getElem? foundLeft),
      positive fr (List.mem_of_getElem? foundRight)⟩

theorem RuleTable.NoisyShares.zeros {new old : RuleTable α} {substates factors : List Nat}
    (noisy : new.NoisyShares randomness old substates factors) (high : randomness < 100)
    (positive : ∀ factor ∈ factors, 0 < factor) : new.ZerosOf old substates factors := by
  intro key parents lefts rights fp fl fr dimensions grows i parent j left k right
  obtain ⟨someLeft, someRight⟩ := Production.growthFactors_positive positive grows
  exact (noisy key parents lefts rights fp fl fr dimensions grows i parent j left k right).eq_zero_iff_of_div
    (Nat.mul_pos someLeft someRight) high

/-- How much a substate has of a name. -/
def countIn (tables : List (NameTable (List α))) (state : Nat) (name : String) (s : Nat) : α :=
  entry ((NameTable.get? ((tables[state]?).getD []) name).getD []) s

namespace EmissionTables

/-- Counts are zero exactly where those of their substates' ancestors are; totals over all substates
are the same. -/
structure ZerosOf (new old : EmissionTables α) (factors : List Nat) : Prop where
  words : ∀ state factor : Nat, factors[state]? = some factor → ∀ name s,
    (countIn new.wordCounts state name s = 0 ↔ countIn old.wordCounts state name (s / factor) = 0)
  signatures : ∀ state factor : Nat, factors[state]? = some factor → ∀ name s,
    (countIn new.unseenSignatureCounts state name s = 0 ↔
      countIn old.unseenSignatureCounts state name (s / factor) = 0)
  tags : ∀ state factor : Nat, factors[state]? = some factor → ∀ s,
    (tally new.tagCounts state s = 0 ↔ tally old.tagCounts state (s / factor) = 0)
  unseenTags : ∀ state factor : Nat, factors[state]? = some factor → ∀ s,
    (tally new.unseenTagCounts state s = 0 ↔ tally old.unseenTagCounts state (s / factor) = 0)
  wordTotals_eq : new.wordTotals = old.wordTotals
  totalTokens_eq : new.totalTokens = old.totalTokens
  unseenSignatureTotals_eq : new.unseenSignatureTotals = old.unseenSignatureTotals
  unseenTotal_eq : new.unseenTotal = old.unseenTotal

/-- The same counts of names, those of tags summed up anew. -/
def resummed (tables : EmissionTables α) (substates : List Nat) : EmissionTables α :=
  tables.retable substates tables.wordCounts tables.unseenSignatureCounts

theorem Summed.resummed_eq {tables : EmissionTables α} {substates : List Nat}
    (summed : tables.Summed substates) : tables.resummed substates = tables := by
  rw [resummed, retable, ← summed.tagCounts, ← summed.unseenTagCounts]

end EmissionTables

theorem NameTable.total_nonneg {table : NameTable (List α)} {s : Nat}
    (counted : ∀ named ∈ table, 0 ≤ entry named.2 s) :
    0 ≤ NameTable.total (entry · s) table := by
  apply List.sum_nonneg
  intro value member
  obtain ⟨named, present, rfl⟩ := List.mem_map.mp member
  exact counted named present

namespace NoisyTable

variable {old new : NameTable (List α)} (noisy : NoisyTable randomness factor old new)
  (counted : ∀ named ∈ old, NoneNegative named.2)

include noisy counted

theorem entry_nonneg (high : randomness ≤ 100) : ∀ named ∈ new, ∀ s, 0 ≤ entry named.2 s := by
  intro named member s
  obtain ⟨ancestor, present, -, noisy⟩ := exists_mem_of_forall₂ noisy.flip member
  exact (noisy s).nonneg high (div_nonneg ((counted ancestor present).entry _) (Nat.cast_nonneg _))

/-- What is not negative adds up to zero only if all of it is zero. -/
theorem total_eq_zero_iff (some : 0 < factor) (high : randomness < 100) (s : Nat) :
    NameTable.total (entry · s) new = 0 ↔ NameTable.total (entry · (s / factor)) old = 0 := by
  have nonneg := noisy.entry_nonneg counted high.le
  induction noisy with
  | nil => rfl
  | @cons ancestor named olds news here rest ih =>
    obtain ⟨first, others⟩ := List.forall_mem_cons.mp counted
    obtain ⟨firstNew, othersNew⟩ := List.forall_mem_cons.mp nonneg
    have oldRest := NameTable.total_nonneg fun named member =>
      (others named member).entry (s / factor)
    have newRest := NameTable.total_nonneg fun named member => othersNew named member s
    simp only [NameTable.total, List.map_cons, List.sum_cons] at ih oldRest newRest ⊢
    rw [add_eq_zero_iff_of_nonneg (firstNew s) newRest,
      add_eq_zero_iff_of_nonneg (first.entry _) oldRest]
    exact and_congr ((here.2 s).eq_zero_iff_of_div some high) (ih others othersNew)

end NoisyTable

namespace Lexicon.NoisyShares

variable {split lexicon : Lexicon α} {factors : List Nat} {root : Nat}

/-- Splitting with less noise than there is to lose makes no zeros and removes none, but for the
counts of tags that are not those of their words. -/
theorem zeros (noisy : NoisyShares randomness split lexicon factors)
    (grow : FactorsFit factors lexicon.substates root) (low : 0 ≤ randomness)
    (high : randomness < 100)
    (words : ∀ table ∈ lexicon.tables.wordCounts, ∀ named ∈ table, NoneNegative named.2)
    (signatures : ∀ table ∈ lexicon.tables.unseenSignatureCounts,
      ∀ named ∈ table, NoneNegative named.2) :
    split.tables.ZerosOf (lexicon.tables.resummed lexicon.substates) factors := by
  have size {state factor : Nat} (grows : factors[state]? = some factor) :
      ∃ size, lexicon.substates[state]? = some size ∧ split.substates[state]? = some (size * factor) := by
    have below : state < lexicon.substates.length :=
      grow.length_eq ▸ (List.getElem?_eq_some_iff.mp grows).1
    have found := List.getElem?_eq_getElem below
    exact ⟨_, found, noisy.substates_eq ▸ products_getElem? found grows⟩
  have listed {tables : List (NameTable (List α))}
      (counted : ∀ table ∈ tables, ∀ named ∈ table, NoneNegative named.2) (state : Nat) :
      ∀ named ∈ (tables[state]?).getD [], NoneNegative named.2 := by
    cases found : tables[state]? with
    | none => exact fun _ member => absurd member List.not_mem_nil
    | some table => exact counted table (List.mem_of_getElem? found)
  have column {old new : List (NameTable (List α))}
      (counted : ∀ table ∈ old, ∀ named ∈ table, NoneNegative named.2)
      (tables : ∀ (state : Nat) factor, factors[state]? = some factor →
        NoisyTable randomness factor ((old[state]?).getD []) ((new[state]?).getD []))
      {state factor : Nat} (grows : factors[state]? = some factor) (s : Nat) :
      tally ((split.substates.zip new).map fun (size, words) =>
          EmissionTables.columnSums size words) state s = 0 ↔
        tally ((lexicon.substates.zip old).map fun (size, words) =>
          EmissionTables.columnSums size words) state (s / factor) = 0 := by
    have some := grow.positive grows
    obtain ⟨size, known, grown⟩ := size grows
    have inside : s < size * factor ↔ s / factor < size := (Nat.div_lt_iff_lt_mul some).symm
    rw [tally_columnSums, tally_columnSums, known, grown, Option.getD_some, Option.getD_some]
    simp only [inside]
    split
    · exact (tables state factor grows).total_eq_zero_iff (listed counted state) some high s
    · rfl
  have name {state factor : Nat} {old new : NameTable (List α)}
      (grows : factors[state]? = some factor) (table : NoisyTable randomness factor old new)
      (name : String) (s : Nat) := (table.get? low name s).eq_zero_iff_of_div
        (grow.positive grows) high
  rw [noisy.tables_eq]
  exact {
    words := fun state factor grows => name grows (noisy.words state factor grows)
    signatures := fun state factor grows => name grows (noisy.signatures state factor grows)
    tags := fun state factor grows => column words noisy.words grows
    unseenTags := fun state factor grows => column signatures noisy.signatures grows
    wordTotals_eq := rfl
    totalTokens_eq := rfl
    unseenSignatureTotals_eq := rfl
    unseenTotal_eq := rfl }

end Lexicon.NoisyShares

end LatentGrammar
