import LatentGrammar.Proofs.Counting.Signs
import LatentGrammar.Proofs.Seeds.Draws

namespace LatentGrammar

variable {α γ : Type} [ExactScalar α] [Draws γ α] {randomness : α}

section Splits

theorem NoneNegative.flatten {rows : List (List α)} (counted : ∀ row ∈ rows, NoneNegative row) :
    NoneNegative rows.flatten := by
  intro value member
  obtain ⟨row, present, inside⟩ := List.mem_flatten.mp member
  exact counted row present value inside

theorem RuleBlock.splitCells_unsigned {old : RuleBlock α} (counted : NoneNegative old.cells.toList)
    (factors dimensions : Nat × Nat × Nat) :
    Delivers Any NoneNegative (old.splitCells factors dimensions) := by
  obtain ⟨fp, fl, fr⟩ := factors
  obtain ⟨parents, lefts, rights⟩ := dimensions
  have cell (i j k : Nat) : 0 ≤ old.cell i j k := by
    simpa [entry, RuleBlock.cell] using counted.entry (old.offset i j k)
  have share (i j k : Nat) : Delivers Any (0 ≤ ·) (do
      return (← old.get i j k) / ((fl * fr : Nat) : α)) :=
    (old.get_cell i j k).bind fun _ same => same ▸ div_nonneg (cell i j k) (Nat.cast_nonneg _)
  refine (delivers_any _).bind fun _ _ => Delivers.ite (fun _ value absent => ?_) fun _ => ?_
  · exact absurd absent List.not_mem_nil
  have rows : Delivers Any (fun rows : List (List α) => ∀ row ∈ rows, NoneNegative row)
      (tabulate parents fun i => do
        let columns ← tabulate lefts fun j => tabulate rights fun k => do
          return (← old.get (i / fp) (j / fl) (k / fr)) / ((fl * fr : Nat) : α)
        return columns.flatten) :=
    Delivers.tabulate_forall fun i => (Delivers.tabulate_forall fun j => Delivers.tabulate_forall fun k => share _ _ _).bind
      fun _ columns => NoneNegative.flatten columns
  exact rows.bind fun _ rows => NoneNegative.flatten rows

theorem fitTables_unsigned {size : Nat} {tables : List (NameTable (List α))}
    (unsigned : ∀ table ∈ tables, table.Unsigned) :
    Delivers Any (fun fitted => ∀ table ∈ fitted, table.Unsigned) (fitTables size tables) := by
  refine (delivers_any _).mono_ok fun fitted success _ table member => ?_
  obtain ⟨-, same⟩ := fitTables_of_ok success
  obtain ⟨state, found⟩ := List.getElem?_of_mem member
  have ancestor := same state
  rw [found, Option.getD_some] at ancestor
  rw [ancestor]
  cases known : tables[state]? with
  | none => exact fun _ absent => absurd absent List.not_mem_nil
  | some old => exact unsigned old (List.mem_of_getElem? known)

theorem EmissionTables.Unsigned.retable {tables : EmissionTables α} (unsigned : tables.Unsigned)
    (substates : List Nat) {words signatures : List (NameTable (List α))}
    (wordsUnsigned : ∀ table ∈ words, table.Unsigned)
    (signaturesUnsigned : ∀ table ∈ signatures, table.Unsigned) :
    (tables.retable substates words signatures).Unsigned := by
  have summed {tables : List (NameTable (List α))} (unsigned : ∀ table ∈ tables, table.Unsigned) :
      ∀ tags ∈ (substates.zip tables).map fun entry => columnSums entry.1 entry.2,
        NoneNegative tags := by
    intro tags member
    obtain ⟨⟨size, table⟩, present, rfl⟩ := List.mem_map.mp member
    exact (unsigned table (List.of_mem_zip present).2).columnSums size
  exact { unsigned with
    tagCounts := summed wordsUnsigned
    wordCounts := wordsUnsigned
    unseenTagCounts := summed signaturesUnsigned
    unseenSignatureCounts := signaturesUnsigned }

variable (unit : RuleCounts.UnitDraws γ) (low : 0 ≤ randomness) (high : randomness ≤ 100)

include unit low high

theorem splitRules_unsigned {entries : List (Production × RuleBlock α)}
    (unsigned : ∀ entry ∈ entries, NoneNegative entry.2.cells.toList) (factors substates : List Nat)
    (stream : γ) :
    Delivers Any (fun result => ∀ entry ∈ result.1, NoneNegative entry.2.cells.toList)
      (splitRules factors substates randomness entries stream) := by
  induction entries generalizing stream with
  | nil => exact unsigned
  | cons entry rest ih =>
    obtain ⟨here, later⟩ := List.forall_mem_cons.mp unsigned
    refine (delivers_any _).bind fun grows _ => (delivers_any _).bind fun sizes _ => ?_
    have split : Delivers Any (fun result : RuleBlock α × γ => NoneNegative result.1.cells.toList)
        (entry.2.split grows sizes randomness stream) :=
      (RuleBlock.splitCells_unsigned here grows sizes).bind fun _ cells =>
        cells.perturbAll unit low high stream
    exact split.bind fun first first' => (ih later first.2).bind fun _ all =>
      List.forall_mem_cons.mpr ⟨first', all⟩

theorem splitTables_unsigned {entries : List (Nat × NameTable (List α))}
    (unsigned : ∀ entry ∈ entries, entry.2.Unsigned) (stream : γ) :
    ∀ table ∈ (splitTables randomness entries stream).1, table.Unsigned := by
  induction entries generalizing stream with
  | nil => exact fun _ absent => absurd absent List.not_mem_nil
  | cons entry rest ih =>
    obtain ⟨here, later⟩ := List.forall_mem_cons.mp unsigned
    exact List.forall_mem_cons.mpr ⟨here.splitNames unit low high entry.1 stream, ih later _⟩

theorem Lexicon.split_unsigned {lexicon : Lexicon α} (unsigned : lexicon.tables.Unsigned)
    (counts : List Nat) (unbounded : Bool) (stream : γ) :
    Delivers Any (·.1.tables.Unsigned) (lexicon.split randomness counts unbounded stream) := by
  refine (delivers_any _).bind fun factors _ => (delivers_any _).bind fun substates _ => ?_
  refine (delivers_any _).bind fun _ _ => ?_
  refine (fitTables_unsigned unsigned.wordCounts).bind fun words wordsUnsigned => ?_
  refine (fitTables_unsigned unsigned.unseenSignatureCounts).bind fun signs signsUnsigned => ?_
  exact unsigned.retable substates
    (splitTables_unsigned unit low high (fun _ member => wordsUnsigned _ (List.of_mem_zip member).2) _)
    (splitTables_unsigned unit low high (fun _ member => signsUnsigned _ (List.of_mem_zip member).2) _)

theorem Model.Unsigned.split {model : Model α} (unsigned : model.Unsigned) (counts : List Nat)
    (unbounded : Bool) (stream : γ) :
    Delivers Any (·.1.Unsigned) (model.split randomness randomness counts unbounded stream) := by
  have grammar : Delivers Any (·.1.rules.Unsigned)
      (model.grammar.split randomness counts unbounded stream) := by
    refine (delivers_any _).bind fun factors _ => (delivers_any _).bind fun substates _ => ?_
    exact (splitRules_unsigned unit low high unsigned.rules factors substates stream).bind
      fun _ rules => rules
  refine grammar.bind fun (grammar, stream) rules => ?_
  exact (Lexicon.split_unsigned unit low high unsigned.counts counts unbounded stream).bind
    fun _ counts => ⟨rules, counts⟩

end Splits

/-- Scores and counts are zero exactly where those of their substates' ancestors are. The counts of a
tag are compared with those of its words, which a split sums up anew. -/
structure Model.ZerosOf (split model : Model α) (counts : List Nat) (unbounded : Bool) : Prop where
  rules : ∃ factors,
    growthFactors model.grammar.substates model.grammar.root counts unbounded = .ok factors ∧
      split.grammar.rules.ZerosOf model.grammar.rules split.grammar.substates factors
  counts : ∃ factors,
    growthFactors model.lexicon.substates model.lexicon.root counts unbounded = .ok factors ∧
      split.lexicon.tables.ZerosOf (model.lexicon.tables.resummed model.lexicon.substates) factors

theorem Model.Unsigned.split_zeros {model : Model α} (unsigned : model.Unsigned)
    (unit : RuleCounts.UnitDraws γ) (low : 0 ≤ randomness) (high : randomness < 100)
    (counts : List Nat) (unbounded : Bool) (stream : γ) :
    Delivers Any (·.1.ZerosOf model counts unbounded)
      (model.split randomness randomness counts unbounded stream) := by
  refine (Grammar.split_noisy unit low model.grammar counts unbounded stream).bind
    fun (grammar, stream) ⟨factors, grows, noisy⟩ => ?_
  refine (Lexicon.split_noisy unit low model.lexicon counts unbounded stream).bind
    fun (lexicon, stream) ⟨factors', grows', noisy'⟩ => ?_
  have grow := (growthFactors_delivers model.grammar.substates model.grammar.root counts unbounded
    any_overflow).of_ok grows
  have grow' := (growthFactors_delivers model.lexicon.substates model.lexicon.root counts unbounded
    any_overflow).of_ok grows'
  exact ⟨⟨factors, grows, noisy.zeros high grow.factors_positive⟩, ⟨factors', grows', noisy'.zeros grow' low
    high unsigned.counts.wordCounts unsigned.counts.unseenSignatureCounts⟩⟩

namespace Training

theorem noise_of_validate {config : Config α} {output : String}
    (accepted : config.validate = .ok output) : 0 ≤ config.noise := by
  unfold Config.validate at accepted
  split at accepted
  · simp only [Run.check_eq_ok_iff] at accepted
    obtain ⟨-, -, -, -, -, low, -⟩ := accepted
    unfold Config.noise
    split
    · exact le_refl 0
    · exact le_of_not_gt low
  · cases accepted

/-- Noise of no more than all of a count makes nothing negative, whatever is drawn: neither in a first
model nor in a model that is split. Noise of less than that makes no zeros in a split either, and
removes none. -/
theorem noise_keeps_signs {config : Config α} {output : String}
    (accepted : config.validate = .ok output) (unit : RuleCounts.UnitDraws γ)
    (bounded : config.noise ≤ 100)
    (weighted : 0 ≤ config.filter ∨ 0 ≤ config.wordSmoothing ∧ 0 ≤ config.signatureSmoothing) :
    (∀ (forest : Forest α) (root : Nat) (stream : γ),
      Delivers (fun fault => (forest.Fits forest.substates ∧
            ∃ categories, SubstatesFit forest.substates categories root) → Overflow fault)
        (·.1.Unsigned) (Run.startingModel config root forest none stream)) ∧
      ∀ (model : Model α) (counts : List Nat) (unbounded : Bool) (stream : γ), model.Unsigned →
        Delivers (fun fault =>
            (∃ categories root, model.Consistent categories root) → Overflow fault)
          (fun result => result.1.Unsigned ∧
            (config.noise < 100 → result.1.ZerosOf model counts unbounded))
          (model.split config.noise config.noise counts unbounded stream) := by
  have low := noise_of_validate accepted
  refine ⟨fun forest root stream => ?_, fun model counts unbounded stream unsigned => ?_⟩
  · have keeps : config.lexiconSettings.KeepsSigns := weighted
    have first : Delivers Any (·.1.Unsigned) (Run.startingModel config root forest none stream) :=
      firstModel_unsigned forest keeps unit low bounded stream
    refine first.under ?_
    rintro ⟨fits, categories, substates⟩
    exact (firstModel_delivers substates fits.trees overflow_overflow stream).mono
      fun _ _ => trivial
  · have zeros (high : config.noise < 100) :=
      unsigned.split_zeros unit low high counts unbounded stream
    have split := unsigned.split unit low bounded counts unbounded stream
    refine Delivers.under ?_ fun ⟨_, _, consistent⟩ =>
      (consistent.split config.noise config.noise counts unbounded stream overflow_overflow).mono
        fun _ _ => trivial
    exact split.mono_ok fun result success unsigned =>
      ⟨unsigned, fun high => (zeros high).of_ok success⟩

theorem sampleModel_unsigned : sampleModel.Unsigned := by
  decide +kernel

theorem sampleConfig_keeps_signs :
    ∃ first, Run.startingModel (Run.sampleConfig none) 0 sampleForest none () = .ok (first, ()) ∧
      first.Unsigned ∧ ∃ split, sampleModel.split 1 1 [1, 2] true () = .ok (split, ()) ∧
        split.Unsigned ∧ split.ZerosOf sampleModel [1, 2] true := by
  have unit : RuleCounts.UnitDraws Unit :=
    fun _ => ⟨by norm_num [Draws.draw], by norm_num [Draws.draw]⟩
  have noise : (Run.sampleConfig none).noise = 1 := rfl
  obtain ⟨output, accepted⟩ : ∃ output, (Run.sampleConfig none).validate = .ok output :=
    exists_ok_of_isOk (by decide +kernel)
  obtain ⟨starts, splits⟩ := noise_keeps_signs accepted unit (by rw [noise]; norm_num)
    (.inl (by decide +kernel))
  obtain ⟨first, started⟩ :
      ∃ first, Run.startingModel (Run.sampleConfig none) 0 sampleForest none () = .ok first :=
    exists_ok_of_isOk (by decide +kernel)
  obtain ⟨split, grown⟩ : ∃ split, sampleModel.split 1 1 [1, 2] true () = .ok split :=
    exists_ok_of_isOk (by decide +kernel)
  have splits := splits sampleModel [1, 2] true () sampleModel_unsigned
  rw [noise] at splits
  obtain ⟨unsigned, zeros⟩ := splits.of_ok grown
  exact ⟨first.1, started, (starts sampleForest 0 ()).of_ok started, split.1, grown, unsigned,
    zeros (by norm_num)⟩

/-- Settings that are accepted although their noise is ten times all of a count. -/
def noisyConfig : Config Rat := { Run.sampleConfig none with randomization := 1000 }

/-- Every draw is from the unit interval, yet cells and counts are negative. -/
theorem noisyConfig_turns_signs :
    noisyConfig.validate.isOk = true ∧
      (∀ n : Nat, 1 ≤ n → 0 ≤ (Draws.draw n : Rat × Nat).1 ∧ (Draws.draw n : Rat × Nat).1 < 1) ∧
      sampleModel.Unsigned ∧ ∃ split later,
        sampleModel.split noisyConfig.noise noisyConfig.noise [1, 2] true 1 = .ok (split, later) ∧
          ¬split.grammar.rules.Unsigned ∧ ¬split.lexicon.tables.Unsigned := by
  have draws (n : Nat) (positive : 1 ≤ n) :
      0 ≤ (Draws.draw n : Rat × Nat).1 ∧ (Draws.draw n : Rat × Nat).1 < 1 := by
    have more : (1 : Rat) < n + 1 := by exact_mod_cast Nat.lt_succ_of_le positive
    exact ⟨div_nonneg zero_le_one (by linarith), (div_lt_one (by linarith)).mpr more⟩
  have signs : (sampleModel.split noisyConfig.noise noisyConfig.noise [1, 2] true 1).toOption.map
      (fun result => (decide result.1.grammar.rules.Unsigned,
        decide result.1.lexicon.tables.Unsigned)) = some (false, false) := by
    decide +kernel
  refine ⟨by decide +kernel, draws, sampleModel_unsigned, ?_⟩
  cases done : sampleModel.split noisyConfig.noise noisyConfig.noise [1, 2] true 1 with
  | error fault => simp [done, Except.toOption] at signs
  | ok result =>
    rw [done] at signs
    simp only [Except.toOption, Option.map_some, Option.some.injEq, Prod.mk.injEq,
      decide_eq_false_iff_not] at signs
    exact ⟨result.1, result.2, rfl, signs⟩

end Training

end LatentGrammar
