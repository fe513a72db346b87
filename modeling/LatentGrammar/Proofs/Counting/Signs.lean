import LatentGrammar.Proofs.Splitting.Noise

namespace LatentGrammar

variable {α γ : Type} [ExactScalar α] [Draws γ α] {randomness : α}

namespace NoneNegative

variable {values totals weights : List α}

theorem replicate (size : Nat) {value : α} (counted : 0 ≤ value) :
    NoneNegative (List.replicate size value) := by
  intro other member
  rw [List.eq_of_mem_replicate member]
  exact counted

theorem map {f : α → α} (kept : ∀ value, 0 ≤ value → 0 ≤ f value) (counted : NoneNegative values) :
    NoneNegative (values.map f) := by
  intro value member
  obtain ⟨old, present, rfl⟩ := List.mem_map.mp member
  exact kept old (counted old present)

theorem sum (counted : NoneNegative values) : 0 ≤ Scalar.sum values :=
  (List.sum_nonneg counted).trans_eq (Scalar.sum_eq values).symm

theorem addInto (first : NoneNegative totals) (second : NoneNegative values) :
    NoneNegative (Scalar.addInto totals values) := by
  induction totals generalizing values with
  | nil => exact first
  | cons total totals ih =>
    cases values with
    | nil => exact first
    | cons value values =>
      obtain ⟨headTotal, totalsCounted⟩ := List.forall_mem_cons.mp first
      obtain ⟨headValue, valuesCounted⟩ := List.forall_mem_cons.mp second
      exact List.forall_mem_cons.mpr ⟨add_nonneg headTotal headValue, ih totalsCounted valuesCounted⟩

theorem shareCounts (counted : NoneNegative values) (factor : Nat) :
    NoneNegative (shareCounts factor values) := by
  intro value member
  obtain ⟨count, present, shared⟩ := List.mem_flatMap.mp member
  rw [List.eq_of_mem_replicate shared]
  exact div_nonneg (counted count present) (Nat.cast_nonneg factor)

theorem perturbAll (counted : NoneNegative values) (unit : RuleCounts.UnitDraws γ)
    (low : 0 ≤ randomness) (high : randomness ≤ 100) (stream : γ) :
    NoneNegative (perturbAll randomness values stream).1 := by
  intro value member
  obtain ⟨share, present, noisy⟩ :=
    exists_mem_of_forall₂ (perturbAll_noisy unit low values stream).flip member
  exact Noisy.nonneg noisy high (counted share present)

theorem proportions (counted : NoneNegative weights) (size : Nat) :
    NoneNegative (EmissionCounts.proportions size weights) := by
  unfold EmissionCounts.proportions
  dsimp only
  split
  · exact counted.map fun _ nonneg => div_nonneg nonneg counted.sum
  · exact replicate size (div_nonneg zero_le_one (Nat.cast_nonneg size))

theorem spread {total unseenTotal : α} (totaled : 0 ≤ total) (unseenTotaled : 0 ≤ unseenTotal)
    {counts unseen : List α} (counted : NoneNegative counts) (unseenCounted : NoneNegative unseen) :
    NoneNegative (EmissionCounts.spread total unseenTotal counts unseen) := by
  induction counts generalizing unseen with
  | nil => exact counted
  | cons count counts ih =>
    cases unseen with
    | nil => exact counted
    | cons one unseen =>
      obtain ⟨-, below⟩ := List.forall_mem_cons.mp counted
      obtain ⟨here, later⟩ := List.forall_mem_cons.mp unseenCounted
      exact List.forall_mem_cons.mpr
        ⟨div_nonneg (mul_nonneg totaled here) unseenTotaled, ih below later⟩

end NoneNegative

namespace NameTable

/-- No vector of the table has a negative entry. -/
def Unsigned (table : NameTable (List α)) : Prop := ∀ named ∈ table, NoneNegative named.2

theorem Unsigned.addNamed {table : NameTable (List α)} (unsigned : table.Unsigned) (name : String)
    {weights : List α} (counted : NoneNegative weights) :
    Unsigned (EmissionTables.addNamed name weights table) :=
  forall_alter unsigned ((NoneNegative.replicate _ le_rfl).addInto counted)
    fun _ old => old.addInto counted

theorem Unsigned.columnSums {table : NameTable (List α)} (unsigned : table.Unsigned) (size : Nat) :
    NoneNegative (EmissionTables.columnSums size table) := by
  intro value member
  obtain ⟨s, found⟩ := List.getElem?_of_mem member
  have column := entry_columnSums size table s
  rw [entry, found, Option.getD_some] at column
  rw [column]
  split
  · exact total_nonneg fun named present => (unsigned named present).entry s
  · exact le_rfl

theorem Unsigned.splitNames {table : NameTable (List α)} (unsigned : table.Unsigned)
    (unit : RuleCounts.UnitDraws γ) (low : 0 ≤ randomness) (high : randomness ≤ 100) (factor : Nat)
    (stream : γ) : Unsigned (splitNames factor randomness table stream).1 := by
  induction table generalizing stream with
  | nil => exact unsigned
  | cons named rest ih =>
    obtain ⟨here, later⟩ := List.forall_mem_cons.mp unsigned
    exact List.forall_mem_cons.mpr
      ⟨(here.shareCounts factor).perturbAll unit low high stream, ih later _⟩

end NameTable

/-- No count is negative. -/
@[mk_iff]
structure EmissionTables.Unsigned (tables : EmissionTables α) : Prop where
  tagCounts : ∀ tags ∈ tables.tagCounts, NoneNegative tags
  wordCounts : ∀ words ∈ tables.wordCounts, words.Unsigned
  wordTotals : ∀ named ∈ tables.wordTotals, 0 ≤ named.2
  totalTokens : 0 ≤ tables.totalTokens
  unseenTagCounts : ∀ tags ∈ tables.unseenTagCounts, NoneNegative tags
  unseenSignatureCounts : ∀ signs ∈ tables.unseenSignatureCounts, signs.Unsigned
  unseenSignatureTotals : ∀ named ∈ tables.unseenSignatureTotals, 0 ≤ named.2
  unseenTotal : 0 ≤ tables.unseenTotal

/-- No score is negative. -/
def RuleTable.Unsigned (table : RuleTable α) : Prop :=
  ∀ entry ∈ table.entries, NoneNegative entry.2.cells.toList

/-- No score and no count is negative. -/
@[mk_iff]
structure Model.Unsigned (model : Model α) : Prop where
  rules : model.grammar.rules.Unsigned
  counts : model.lexicon.tables.Unsigned

instance (values : List α) : Decidable (NoneNegative values) :=
  inferInstanceAs (Decidable (∀ value ∈ values, 0 ≤ value))

instance (table : NameTable (List α)) : Decidable table.Unsigned :=
  inferInstanceAs (Decidable (∀ named ∈ table, NoneNegative named.2))

instance (tables : EmissionTables α) : Decidable tables.Unsigned :=
  decidable_of_iff _ (EmissionTables.unsigned_iff tables).symm

instance (table : RuleTable α) : Decidable table.Unsigned :=
  inferInstanceAs (Decidable (∀ entry ∈ table.entries, NoneNegative entry.2.cells.toList))

instance (model : Model α) : Decidable model.Unsigned :=
  decidable_of_iff _ (Model.unsigned_iff model).symm

theorem forall_mem_set {β : Type} {property : β → Prop} {items : List β}
    (all : ∀ item ∈ items, property item) (index : Nat) {value : β} (holds : property value) :
    ∀ item ∈ items.set index value, property item := by
  intro item member
  rcases List.mem_or_eq_of_mem_set member with present | rfl
  · exact all item present
  · exact holds

namespace EmissionTables

theorem empty_unsigned (substates : List Nat) :
    Delivers Any (fun tables : EmissionTables α => tables.Unsigned) (empty substates) := by
  have zeros : Delivers Any (fun rows : List (List α) => ∀ row ∈ rows, NoneNegative row)
      (substates.mapM (fill · 0)) :=
    Delivers.mapM_forall fun size _ => (delivers_fill_or_overflow fun _ => trivial).mono
      fun row same => same ▸ .replicate size le_rfl
  have blank : ∀ table ∈ substates.map fun _ => ([] : NameTable (List α)),
      NameTable.Unsigned table := by
    intro table member
    obtain ⟨_, -, rfl⟩ := List.mem_map.mp member
    exact fun _ absent => absurd absent List.not_mem_nil
  have none : ∀ named ∈ ([] : NameTable α), 0 ≤ named.2 := fun _ absent =>
    absurd absent List.not_mem_nil
  exact zeros.bind fun rows counted => ⟨counted, blank, none, le_rfl, counted, blank, none, le_rfl⟩

theorem increment_unsigned {table : NameTable α} (counted : ∀ named ∈ table, 0 ≤ named.2)
    (name : String) : ∀ named ∈ increment name table, 0 ≤ named.2 :=
  NameTable.forall_alter counted (add_nonneg le_rfl zero_le_one)
    fun _ counted => add_nonneg counted zero_le_one

end EmissionTables

namespace EmissionCounts

variable {counts : EmissionCounts α} {frame : LexiconFrame α}

/-- Counts in a frame, none of them negative. -/
structure UnsignedIn (counts : EmissionCounts α) (frame : LexiconFrame α) : Prop where
  frame_eq : counts.toLexiconFrame = frame
  unsigned : counts.tables.Unsigned

theorem start_unsigned (substates : List Nat) (root : Nat) (settings : LexiconSettings α) :
    Delivers Any (fun counts => ∃ ancestry,
        counts.UnsignedIn ⟨substates, root, settings, .none, ancestry⟩)
      (start substates root settings) :=
  (delivers_any _).bind fun ancestry _ => (EmissionTables.empty_unsigned substates).bind
    fun _ unsigned => ⟨ancestry, rfl, unsigned⟩

theorem add_unsigned (unsigned : counts.UnsignedIn frame) (policy : UnseenPolicy α) (state : Nat)
    (word : String) (position : Nat) {weights : List α} (counted : NoneNegative weights) :
    Delivers Any (·.UnsignedIn frame) (counts.add policy state word position weights) := by
  obtain ⟨same, unsigned⟩ := unsigned
  have totaled : 0 ≤ counts.tables.totalTokens + 1 := add_nonneg unsigned.totalTokens zero_le_one
  have wordTotals := EmissionTables.increment_unsigned unsigned.wordTotals word
  refine (fetch_keeps unsigned.wordCounts state).bind fun words wordsUnsigned => ?_
  refine (fetch_keeps unsigned.tagCounts state).bind fun tags tagsCounted => ?_
  have wordCounts := forall_mem_set unsigned.wordCounts state (wordsUnsigned.addNamed word counted)
  have tagCounts := forall_mem_set unsigned.tagCounts state (tagsCounted.addInto counted)
  refine Delivers.ite (fun _ => ?_) fun _ => ?_
  · refine (fetch_keeps unsigned.unseenSignatureCounts state).bind fun signs signsUnsigned => ?_
    refine (fetch_keeps unsigned.unseenTagCounts state).bind fun unseen unseenCounted => ?_
    exact ⟨same, tagCounts, wordCounts, wordTotals, totaled,
      forall_mem_set unsigned.unseenTagCounts state (unseenCounted.addInto counted),
      forall_mem_set unsigned.unseenSignatureCounts state (signsUnsigned.addNamed _ counted),
      EmissionTables.increment_unsigned unsigned.unseenSignatureTotals _,
      add_nonneg unsigned.unseenTotal zero_le_one⟩
  · exact ⟨same, tagCounts, wordCounts, wordTotals, totaled, unsigned.unseenTagCounts,
      unsigned.unseenSignatureCounts, unsigned.unseenSignatureTotals, unsigned.unseenTotal⟩

theorem tieWords_unsigned {words : NameTable (List α)} (unsigned : words.Unsigned)
    (wordTotals : NameTable α) (rare : α) {unseen : List α} (counted : NoneNegative unseen) :
    NameTable.Unsigned (tieWords wordTotals rare unseen words) := by
  unfold tieWords
  dsimp only
  split
  · exact unsigned
  · intro named member
    obtain ⟨⟨word, old⟩, present, rfl⟩ := List.mem_map.mp member
    have old := unsigned (word, old) present
    dsimp only
    split
    · exact old
    · exact NoneNegative.spread old.sum counted.sum old counted

theorem tieRare_unsigned (unsigned : counts.UnsignedIn frame) (rare : α) :
    Delivers Any (·.UnsignedIn frame) (counts.tieRare rare) := by
  obtain ⟨same, unsigned⟩ := unsigned
  have tied : Delivers Any (fun tables => ∀ words ∈ tables, words.Unsigned)
      (counts.tables.wordCounts.zipIdx.mapM fun entry => do
        return tieWords counts.tables.wordTotals rare
          (← fetch counts.tables.unseenTagCounts entry.2) entry.1) := by
    refine Delivers.mapM_forall fun entry member => ?_
    have present := List.mem_of_getElem? (List.mem_zipIdx_iff_getElem?.mp member)
    exact (fetch_keeps unsigned.unseenTagCounts entry.2).bind fun unseen counted =>
      tieWords_unsigned (unsigned.wordCounts entry.1 present) _ rare counted
  exact tied.bind fun wordCounts tied => ⟨same, { unsigned with wordCounts := tied }⟩

end EmissionCounts

/-- What is pruned has a threshold that is not negative, or smoothing weights that are not. -/
def LexiconSettings.KeepsSigns (settings : LexiconSettings α) : Prop :=
  0 ≤ settings.threshold ∨ 0 ≤ settings.wordSmoothing ∧ 0 ≤ settings.signatureSmoothing

namespace Lexicon

variable {lexicon : Lexicon α}

theorem countOf_nonneg {table : NameTable (List α)} (unsigned : table.Unsigned) (name : String)
    (s : Nat) : Delivers Any (0 ≤ ·) (countOf (table.get? name) s) := by
  cases found : table.get? name with
  | none => exact le_rfl
  | some values => exact fetch_keeps (NameTable.forall_get? unsigned found) s

theorem total_nonneg {table : NameTable α} (counted : ∀ named ∈ table, 0 ≤ named.2)
    (name : String) : 0 ≤ (table.get? name).getD 0 := by
  cases found : table.get? name with
  | none => exact le_rfl
  | some value => exact NameTable.forall_get? counted found

section Weights

variable (unsigned : lexicon.tables.Unsigned) (words : 0 ≤ lexicon.settings.wordSmoothing)
  (signatures : 0 ≤ lexicon.settings.signatureSmoothing)

include words in
theorem tagGivenWord_nonneg {count total given : α} (counted : 0 ≤ count) (totaled : 0 ≤ total)
    (smoothed : 0 ≤ given) : 0 ≤ tagGivenWord lexicon.settings count total given := by
  unfold tagGivenWord
  split
  · exact div_nonneg counted totaled
  · split
    · exact div_nonneg (add_nonneg counted (mul_nonneg words smoothed)) (add_nonneg totaled words)
    · exact smoothed

include signatures in
theorem tagGivenSignature_nonneg {count total unseen : α} (counted : 0 ≤ count)
    (totaled : 0 ≤ total) (smoothed : 0 ≤ unseen) :
    0 ≤ tagGivenSignature lexicon.settings count total unseen :=
  div_nonneg (add_nonneg counted (mul_nonneg signatures smoothed)) (add_nonneg totaled signatures)

include unsigned words signatures in
theorem sophisticatedScores_unsigned (word : String) (state position size : Nat) :
    Delivers Any NoneNegative (lexicon.sophisticatedScores word state position size) := by
  unfold sophisticatedScores
  refine Delivers.ite (fun _ => ?_) fun some => ?_
  · exact (delivers_fill_or_overflow fun _ => trivial).mono fun row same =>
      same ▸ NoneNegative.replicate size le_rfl
  have total := lt_of_not_ge some
  have wordTotal := total_nonneg unsigned.wordTotals word
  have signTotal := total_nonneg unsigned.unseenSignatureTotals (signature word position)
  refine (fetch_keeps unsigned.wordCounts state).bind fun wordTable wordsUnsigned => ?_
  refine (fetch_keeps unsigned.unseenSignatureCounts state).bind fun signTable signsUnsigned => ?_
  have wordShare : 0 ≤ if 0 < (lexicon.tables.wordTotals.get? word).getD 0 then
      (lexicon.tables.wordTotals.get? word).getD 0 / lexicon.tables.totalTokens
      else 1 / (lexicon.tables.totalTokens + 1) := by
    split
    · exact div_nonneg wordTotal total.le
    · exact div_nonneg zero_le_one (add_nonneg total.le zero_le_one)
  refine Delivers.tabulate_forall fun s => ?_
  refine (delivers_any _).bind fun tags _ => (delivers_any _).bind fun tag _ => ?_
  refine Delivers.ite (fun _ => le_refl (0 : α)) fun positive => ?_
  have tagShare : 0 ≤ tag / lexicon.tables.totalTokens := (lt_of_not_ge positive).le
  have inverted (tagUnseen : α) (unseen : 0 ≤ tagUnseen) :
      Delivers Any (0 ≤ ·) (do
        let signCount ← countOf (signTable.get? (signature word position)) s
        let wordCount ← countOf (wordTable.get? word) s
        let givenSignature := tagGivenSignature lexicon.settings signCount
          ((lexicon.tables.unseenSignatureTotals.get? (signature word position)).getD 0) tagUnseen
        let givenWord := tagGivenWord lexicon.settings wordCount
          ((lexicon.tables.wordTotals.get? word).getD 0) givenSignature
        pure (givenWord * (if 0 < (lexicon.tables.wordTotals.get? word).getD 0 then
            (lexicon.tables.wordTotals.get? word).getD 0 / lexicon.tables.totalTokens
          else 1 / (lexicon.tables.totalTokens + 1)) / (tag / lexicon.tables.totalTokens))) := by
    refine (countOf_nonneg signsUnsigned _ s).bind fun signCount signCounted => ?_
    refine (countOf_nonneg wordsUnsigned word s).bind fun wordCount wordCounted => ?_
    have givenSignature := tagGivenSignature_nonneg signatures signCounted signTotal unseen
    have givenWord := tagGivenWord_nonneg words wordCounted wordTotal givenSignature
    exact div_nonneg (mul_nonneg givenWord wordShare) tagShare
  refine Delivers.ite (fun some => ?_) fun _ => inverted _ tagShare
  refine (fetch_keeps unsigned.unseenTagCounts state).bind fun unseenTags counted => ?_
  exact (fetch_keeps counted s).bind fun unseen counted =>
    inverted _ (div_nonneg counted (le_of_lt some))

include unsigned words in
theorem simpleScores_unsigned (word : String) (state position size : Nat) :
    Delivers Any NoneNegative (lexicon.simpleScores word state position size) := by
  unfold simpleScores
  refine (fetch_keeps unsigned.wordCounts state).bind fun wordTable wordsUnsigned => ?_
  refine Delivers.tabulate_forall fun s => ?_
  refine (delivers_any _).bind fun tags _ => (delivers_any _).bind fun tagTotal _ => ?_
  refine Delivers.ite (fun _ => le_refl (0 : α)) fun positive => ?_
  refine (countOf_nonneg wordsUnsigned _ s).bind fun count counted => ?_
  have types : (0 : α) ≤ ((lexicon.tables.wordTotals.length : Nat) : α) + 1 :=
    add_nonneg (Nat.cast_nonneg _) zero_le_one
  exact div_nonneg (add_nonneg counted (div_nonneg words types))
    (add_nonneg (lt_of_not_ge positive).le words)

end Weights

/-- Scores that are not smoothed are not negative: raw ones are not, or pruning removes them. -/
theorem score_unsigned (unsigned : lexicon.tables.Unsigned) (keeps : lexicon.settings.KeepsSigns)
    (plain : lexicon.smoothing = .none) (word : String) (state position : Nat) :
    Delivers Any NoneNegative (lexicon.score word state position) := by
  rw [score_eq]
  refine (delivers_any _).bind fun size _ => ?_
  have pruned (score : α) : 0 ≤ lexicon.settings.threshold →
      0 ≤ if score < lexicon.settings.threshold then 0 else score := fun threshold => by
    split
    · exact le_rfl
    · next above => exact threshold.trans (le_of_not_gt above)
  rcases keeps with threshold | ⟨words, signatures⟩
  · refine (delivers_any _).bind fun scores _ => (delivers_any _).bind fun ancestry _ => ?_
    intro value member
    obtain ⟨score, -, rfl⟩ := List.mem_map.mp member
    exact pruned score threshold
  · have raw : Delivers Any NoneNegative (lexicon.rawScores word state position size) := by
      unfold rawScores
      cases lexicon.settings.kind with
      | sophisticated => exact sophisticatedScores_unsigned unsigned words signatures _ _ _ _
      | simple => exact simpleScores_unsigned unsigned words _ _ _ _
    refine raw.bind fun scores counted => (delivers_any _).bind fun ancestry _ => ?_
    rw [plain]
    refine NoneNegative.map (fun score nonneg => ?_) counted
    split
    · exact le_rfl
    · exact nonneg

end Lexicon

namespace RuleTable

variable {table : RuleTable α} {key : Production} {block : RuleBlock α}

omit [ExactScalar α] in
theorem eq_or_mem_of_mem_place {entries : List (Production × RuleBlock α)}
    {entry : Production × RuleBlock α} (member : entry ∈ place key block entries) :
    entry = (key, block) ∨ entry ∈ entries := by
  induction entries with
  | nil => exact .inl (List.mem_singleton.mp member)
  | cons first rest ih =>
    unfold place at member
    split at member
    · exact (List.mem_cons.mp member).imp_right (List.mem_cons_of_mem _)
    · split at member
      · exact List.mem_cons.mp member
      · rcases List.mem_cons.mp member with rfl | later
        · exact .inr List.mem_cons_self
        · exact (ih later).imp_right (List.mem_cons_of_mem _)

theorem Unsigned.insert (unsigned : table.Unsigned) (counted : NoneNegative block.cells.toList) :
    (table.insert key block).Unsigned := by
  intro entry member
  rcases eq_or_mem_of_mem_place member with rfl | old
  · exact counted
  · exact unsigned entry old

theorem Unsigned.find? (unsigned : table.Unsigned) (found : table.find? key = some block) :
    NoneNegative block.cells.toList := by
  obtain ⟨before, after, split, -⟩ := List.lookup_eq_some_iff.mp found
  exact unsigned (key, block) (by simp [split])

end RuleTable

namespace RuleCounts

variable {counts : RuleCounts α}

/-- Counts that are not smoothed, none of them negative. -/
structure UnsignedPlain (counts : RuleCounts α) : Prop where
  smoothing_eq : counts.smoothing = .none
  unsigned : counts.rules.Unsigned

theorem countTopEvenly_unsigned (unsigned : counts.UnsignedPlain) (tree : LatentTree α) :
    Delivers Any (·.UnsignedPlain) (counts.countTopEvenly tree) := by
  obtain ⟨plain, unsigned⟩ := unsigned
  unfold countTopEvenly
  cases tree.rule? with
  | none => exact ⟨plain, unsigned⟩
  | some key =>
    refine (delivers_any _).bind fun dimensions _ => ?_
    have block : Delivers Any (fun block : RuleBlock α => NoneNegative block.cells.toList)
        (counts.block key dimensions) := by
      unfold RuleCounts.block
      cases found : counts.rules.find? key with
      | some block => exact unsigned.find? found
      | none =>
        refine (delivers_any _).bind fun size _ => ?_
        simpa using NoneNegative.replicate size (le_refl (0 : α))
    refine block.bind fun block counted => ⟨plain, unsigned.insert ?_⟩
    simpa [RuleBlock.map] using counted.map fun count counted => add_nonneg counted zero_le_one

theorem countEvenly_unsigned (unsigned : counts.UnsignedPlain) (tree : LatentTree α) :
    Delivers Any (·.UnsignedPlain) (counts.countEvenly tree) :=
  Delivers.foldlM unsigned fun _ node _ unsigned => countTopEvenly_unsigned unsigned node

theorem probability_nonneg (threshold total : α) {count : α} (counted : 0 ≤ count) :
    0 ≤ probability threshold total count := by
  have share : 0 ≤ if 0 < total then count / total else 0 := by
    split
    · next some => exact div_nonneg counted (le_of_lt some)
    · exact le_refl 0
  unfold probability
  dsimp only
  generalize (if 0 < total then count / total else 0) = share at *
  split
  · exact le_rfl
  · assumption

theorem normalizeRule_unsigned (plain : counts.smoothing = .none) (totals : List (List α))
    (key : Production) {block : RuleBlock α} (counted : NoneNegative block.cells.toList) :
    Delivers Any (fun block => NoneNegative block.cells.toList)
      (counts.normalizeRule totals key block) := by
  have inactive : ¬counts.smoothing.isActive := by simp [plain, Smoothing.isActive]
  refine (delivers_any _).bind fun row _ => ?_
  have normalized : Delivers Any (fun block : RuleBlock α => NoneNegative block.cells.toList)
      (block.normalize counts.threshold row) := by
    refine (delivers_any _).bind fun rows _ => Delivers.ite (fun _ => trivial) fun _ => ?_
    intro value member
    simp only [RuleBlock.mapCells, Array.toList_mapIdx, List.mem_mapIdx] at member
    obtain ⟨offset, below, rfl⟩ := member
    have here := counted _ (List.getElem_mem below)
    split
    · exact probability_nonneg _ _ here
    · exact here
  refine normalized.bind fun block counted => ?_
  rw [if_neg inactive]
  exact counted

theorem normalize_unsigned (unsigned : counts.UnsignedPlain) :
    Delivers Any (·.rules.Unsigned) counts.normalize := by
  refine (delivers_any _).bind fun totals _ => ?_
  have replaced : Delivers Any (fun entries : List (Production × RuleBlock α) =>
      ∀ entry ∈ entries, NoneNegative entry.2.cells.toList)
      (counts.rules.entries.mapM fun entry =>
        return (entry.1, ← counts.normalizeRule totals entry.1 entry.2)) :=
    Delivers.mapM_forall fun entry member =>
      (normalizeRule_unsigned unsigned.smoothing_eq totals entry.1
        (unsigned.unsigned entry member)).bind fun _ counted => counted
  have rules : Delivers Any (·.Unsigned) (counts.rules.mapScoresM (counts.normalizeRule totals)) :=
    replaced.bind fun _ unsigned => unsigned
  exact rules.bind fun _ unsigned => unsigned

theorem perturbRules_unsigned {entries : List (Production × RuleBlock α)}
    (unsigned : ∀ entry ∈ entries, NoneNegative entry.2.cells.toList)
    (unit : UnitDraws γ) (low : 0 ≤ randomness) (high : randomness ≤ 100) (stream : γ) :
    ∀ entry ∈ (perturbRules randomness entries stream).1, NoneNegative entry.2.cells.toList := by
  induction entries generalizing stream with
  | nil => exact unsigned
  | cons entry rest ih =>
    obtain ⟨here, later⟩ := List.forall_mem_cons.mp unsigned
    exact List.forall_mem_cons.mpr ⟨here.perturbAll unit low high stream, ih later _⟩

theorem estimate_unsigned (unsigned : counts.UnsignedPlain) (unit : UnitDraws γ)
    (low : 0 ≤ randomness) (high : randomness ≤ 100) (stream : γ) :
    Delivers Any (·.1.rules.Unsigned) (counts.estimate randomness stream) := by
  obtain ⟨plain, unsigned⟩ := unsigned
  have noisy : (counts.noisy randomness stream).UnsignedPlain := by
    unfold noisy
    split
    · exact ⟨plain, perturbRules_unsigned unsigned unit low high stream⟩
    · exact ⟨plain, unsigned⟩
  obtain ⟨later, estimated⟩ := counts.estimate_eq randomness stream
  rw [estimated]
  exact (normalize_unsigned noisy).bind fun _ unsigned => unsigned

end RuleCounts

namespace Training

theorem weights_unsigned {reference : Option (Lexicon α)}
    (answers : ∀ lexicon, reference = some lexicon → ∀ word state position,
      Delivers Any NoneNegative (lexicon.score word state position))
    {word : String} {state position size : Nat} {weights : List α}
    (weighs : EmissionCounts.Weighs reference word state position size weights) :
    NoneNegative weights := by
  cases reference with
  | none =>
    obtain rfl : weights = _ := weighs
    exact .replicate size zero_le_one
  | some lexicon => exact (answers lexicon rfl word state position).of_ok weighs

/-- Nothing in a first model is negative. -/
theorem firstModel_unsigned (forest : Forest α) {settings : FirstModelSettings α}
    (keeps : settings.lexicon.KeepsSigns) (unit : RuleCounts.UnitDraws γ)
    (low : 0 ≤ settings.randomness) (high : settings.randomness ≤ 100) (stream : γ) :
    Delivers Any (·.1.Unsigned) (firstModel forest settings stream) := by
  have counted {frame : LexiconFrame α} {counts : EmissionCounts α}
      (unsigned : counts.UnsignedIn frame) {reference : Option (Lexicon α)}
      (answers : ∀ lexicon, reference = some lexicon → ∀ word state position,
        Delivers Any NoneNegative (lexicon.score word state position))
      (active : Nat → Bool) (stream : γ) :
      Delivers Any (·.1.UnsignedIn frame) (countAllUnscored active settings.rare
        settings.randomness reference 0 forest.trees counts stream) :=
    countAllUnscored_keeps unsigned active
      (fun policy _ word state position size _ stream weighs unsigned =>
        EmissionCounts.add_unsigned unsigned policy state word position
          (((weights_unsigned answers weighs).perturbAll unit low high stream).proportions size))
      0 forest.trees stream
  unfold firstModel
  refine (EmissionCounts.start_unsigned forest.substates settings.root settings.lexicon).bind
    fun empty ⟨ancestry, emptyUnsigned⟩ => ?_
  refine (counted emptyUnsigned (by rintro _ ⟨⟩) _ stream).bind
    fun (scratch, stream) scratchUnsigned => ?_
  refine (counted emptyUnsigned (fun lexicon same => ?_) _ stream).bind
    fun (emissions, stream) emissionsUnsigned => ?_
  · obtain rfl := Option.some.inj same
    obtain ⟨frame, unsigned⟩ := scratchUnsigned
    refine Lexicon.score_unsigned unsigned ?_ (congrArg (·.smoothing) frame)
    rw [show scratch.estimate.settings = settings.lexicon from congrArg (·.settings) frame]
    exact keeps
  have blank : Delivers Any (·.UnsignedPlain)
      (RuleCounts.start forest.substates settings.root settings.filter) :=
    (delivers_any _).bind fun _ _ => ⟨rfl, fun _ absent => absurd absent List.not_mem_nil⟩
  refine blank.bind fun rules rulesUnsigned => ?_
  refine (Delivers.foldlM rulesUnsigned fun _ tree _ unsigned =>
    RuleCounts.countEvenly_unsigned unsigned tree).bind fun rules rulesUnsigned => ?_
  refine (EmissionCounts.tieRare_unsigned emissionsUnsigned settings.rare).bind
    fun emissions emissionsUnsigned => ?_
  exact (RuleCounts.estimate_unsigned rulesUnsigned unit low high stream).bind
    fun _ grammar => ⟨grammar, emissionsUnsigned.unsigned⟩

end Training

end LatentGrammar
