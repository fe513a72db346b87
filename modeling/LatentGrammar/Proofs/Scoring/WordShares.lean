import LatentGrammar.Proofs.Bookkeeping.Columns
import LatentGrammar.Proofs.Saving.Checkpoints

namespace LatentGrammar

variable {α : Type} [ExactScalar α]

namespace NameTable

variable {β : Type} {table : NameTable β}

theorem sum_map_get? (distinct : table.Distinct) {names : List String} (nodup : names.Nodup)
    (listed : ∀ name, table.contains name = true → name ∈ names) (measure : β → α) :
    (names.map fun name => ((table.get? name).map measure).getD 0).sum = table.total measure := by
  induction table with
  | nil =>
    apply List.sum_eq_zero
    intro value member
    obtain ⟨name, -, rfl⟩ := List.mem_map.mp member
    rfl
  | cons named rest ih =>
    obtain ⟨new, later⟩ := List.nodup_cons.mp distinct
    have absent : get? rest named.1 = none := by
      cases found : get? rest named.1 with
      | none => rfl
      | some value => exact absurd (contains_iff.mp (by simp [contains, found])) new
    have here : named.1 ∈ names := listed named.1 (contains_iff.mpr List.mem_cons_self)
    have restListed (name : String) (present : contains rest name = true) : name ∈ names :=
      listed name (contains_iff.mpr (List.mem_cons_of_mem _ (contains_iff.mp present)))
    have split (name : String) : ((get? (named :: rest) name).map measure).getD 0 =
        if name = named.1 then measure named.2 else ((get? rest name).map measure).getD 0 := by
      rw [get?_cons]
      split
      · rfl
      · rfl
    simp only [split]
    rw [List.sum_map_ite_eq, List.count_eq_one_of_mem nodup here, ih later restListed, absent,
      one_smul]
    simp [total]

end NameTable

/-- A score, or zero if it is below the threshold. -/
def pruned (threshold score : α) : α := if score < threshold then 0 else score

theorem pruned_eq_iff {threshold score : α} (nonpositive : threshold ≤ 0) :
    pruned threshold score = score ↔ threshold ≤ score := by
  unfold pruned
  split
  · rename_i below
    have negative := below.trans_le nonpositive
    exact ⟨fun same => absurd same negative.ne', fun above => absurd below above.not_gt⟩
  · rename_i above
    exact ⟨fun _ => le_of_not_gt above, fun _ => rfl⟩

/-- Where thresholds are not positive, pruning only ever lifts a score. -/
theorem le_pruned {threshold : α} (nonpositive : threshold ≤ 0) (score : α) :
    score ≤ pruned threshold score := by
  by_cases kept : threshold ≤ score
  · exact ((pruned_eq_iff nonpositive).mpr kept).ge
  · have below := lt_of_not_ge kept
    rw [pruned, if_pos below]
    exact (below.trans_le nonpositive).le

namespace Lexicon

/-- How much a substate of a category has. -/
def tagCount (lexicon : Lexicon α) (state s : Nat) : α :=
  entry ((lexicon.tables.tagCounts[state]?).getD []) s

/-- How much a substate of a category has of a word or a signature. -/
def count (lexicon : Lexicon α) (state : Nat) (name : String) (s : Nat) : α :=
  entry ((NameTable.get? ((lexicon.tables.wordCounts[state]?).getD []) name).getD []) s

/-- The share of a word in what a substate has, where one further word is reckoned with. -/
def wordShare (lexicon : Lexicon α) (state : Nat) (name : String) (s : Nat) : α :=
  (lexicon.count state name s
      + lexicon.settings.wordSmoothing / ((lexicon.tables.wordTotals.length : α) + 1))
    / (lexicon.tagCount state s + lexicon.settings.wordSmoothing)

/-- The name that a word is looked up by. -/
def lookupName (lexicon : Lexicon α) (word : String) (position : Nat) : String :=
  if lexicon.knows word then word else signature word position

/-- A lexicon that scores by relative frequency, smooths words only and prunes no positive score, and
whose tags have what their words have, substate by substate. -/
structure Relative (lexicon : Lexicon α) : Prop where
  consistent : lexicon.Consistent
  distinct : lexicon.tables.Distinct
  kind : lexicon.settings.kind = .simple
  smoothing : lexicon.smoothing = .none
  wordSmoothing : 0 ≤ lexicon.settings.wordSmoothing
  threshold : lexicon.settings.threshold ≤ 0
  known : ∀ words ∈ lexicon.tables.wordCounts, ∀ word, words.contains word = true →
    lexicon.knows word = true
  summed : lexicon.tables.TagsSummed lexicon.substates

variable {lexicon : Lexicon α} {state size s : Nat}

/-- The scores of a word are its shares, where there is something to share. -/
theorem Relative.score_eq (relative : lexicon.Relative) (found : lexicon.substates[state]? = some size)
    (word : String) (position : Nat) :
    lexicon.score word state position = .ok ((List.range size).map fun s =>
      pruned lexicon.settings.threshold (if lexicon.tagCount state s ≤ 0 then 0
        else lexicon.wordShare state (lexicon.lookupName word position) s)) := by
  have tables := relative.consistent.tables
  obtain ⟨words, foundWords, fits⟩ := exists_of_forall₂ tables.wordCounts found
  obtain ⟨tags, foundTags, sized⟩ := exists_of_forall₂ tables.tagCounts found
  have counted (name : String) {s : Nat} (below : s < size) :
      countOf (words.get? name) s = .ok (lexicon.count state name s) := by
    rw [count, foundWords, Option.getD_some]
    cases present : words.get? name with
    | none => rfl
    | some counts => exact RuleBlock.fetch_eq_entry (by rw [fits.get? present]; exact below)
  have raw : lexicon.rawScores word state position size = .ok ((List.range size).map fun s =>
      if lexicon.tagCount state s ≤ 0 then 0
      else lexicon.wordShare state (lexicon.lookupName word position) s) := by
    unfold Lexicon.rawScores
    simp only [relative.kind, simpleScores, fetch_eq_ok_iff.mpr foundWords,
      fetch_eq_ok_iff.mpr foundTags, ok_bind]
    rw [tabulate_eq_mapM]
    refine mapM_eq_map fun s member => ?_
    have below := List.mem_range.mp member
    have tag : fetch tags s = .ok (lexicon.tagCount state s) := by
      rw [tagCount, foundTags, Option.getD_some]
      exact RuleBlock.fetch_eq_entry (by rw [sized]; exact below)
    have named := counted (lexicon.lookupName word position) below
    unfold lookupName knows at named
    rw [tag, ok_bind]
    split
    · rfl
    · rw [named, ok_bind]
      rfl
  rw [score_of_raw found relative.consistent.ancestry relative.smoothing raw, List.map_map]
  rfl

theorem Relative.sum_count (relative : lexicon.Relative)
    (found : lexicon.substates[state]? = some size) (s : Nat) :
    ((lexicon.tables.wordTotals.map Prod.fst).map fun word => lexicon.count state word s).sum =
      lexicon.tagCount state s := by
  have tables := relative.consistent.tables
  obtain ⟨words, foundWords, fits⟩ := exists_of_forall₂ tables.wordCounts found
  have member := List.mem_of_getElem? foundWords
  have sums : lexicon.tagCount state s = words.total (entry · s) := by
    rw [tagCount, relative.summed.column found foundWords]
    exact (additive_entry s).columnSums fits
  rw [sums, ← NameTable.sum_map_get? (relative.distinct.wordCounts words member)
    relative.distinct.wordTotals fun word present =>
      NameTable.contains_iff.mp (relative.known words member word present)]
  refine congrArg List.sum (List.map_congr_left fun word _ => ?_)
  rw [count, foundWords, Option.getD_some]
  cases words.get? word with
  | none => rfl
  | some counts => rfl

/-- What the known words leave goes to a word without counts. -/
theorem Relative.sum_wordShare (relative : lexicon.Relative)
    (found : lexicon.substates[state]? = some size) (positive : 0 < lexicon.tagCount state s)
    {name : String} (uncounted : lexicon.count state name s = 0) :
    ((lexicon.tables.wordTotals.map Prod.fst).map fun word => lexicon.wordShare state word s).sum
      + lexicon.wordShare state name s = 1 := by
  have total := relative.sum_count found s
  have nonzero : lexicon.tagCount state s + lexicon.settings.wordSmoothing ≠ 0 :=
    (add_pos_of_pos_of_nonneg positive relative.wordSmoothing).ne'
  have types : (lexicon.tables.wordTotals.length : α) + 1 ≠ 0 := Nat.cast_add_one_ne_zero _
  unfold wordShare
  rw [uncounted, zero_add]
  simp only [div_eq_mul_inv _ (lexicon.tagCount state s + _)]
  rw [List.sum_map_mul_right, List.sum_map_add, total, List.map_const', List.sum_replicate,
    List.length_map, nsmul_eq_mul]
  field_simp
  ring

theorem Relative.wordShare_nonneg (relative : lexicon.Relative)
    (positive : 0 < lexicon.tagCount state s) {name : String}
    (counted : 0 ≤ lexicon.count state name s) : 0 ≤ lexicon.wordShare state name s := by
  have smoothing := relative.wordSmoothing
  unfold wordShare
  positivity

theorem Relative.exists_size (relative : lexicon.Relative)
    (positive : 0 < lexicon.tagCount state s) :
    ∃ size, lexicon.substates[state]? = some size ∧ s < size := by
  unfold tagCount at positive
  cases foundTags : lexicon.tables.tagCounts[state]? with
  | none => simp [foundTags, entry] at positive
  | some tags =>
    obtain ⟨size, found, sized⟩ :=
      exists_of_forall₂ relative.consistent.tables.tagCounts.flip foundTags
    refine ⟨size, found, ?_⟩
    by_contra beyond
    have absent : tags[s]? = none := List.getElem?_eq_none (sized.trans_le (Nat.le_of_not_lt beyond))
    simp [foundTags, entry, absent] at positive

/-- Pruned shares add up to at least one, and to more only where one was lifted. -/
theorem Relative.sum_pruned (relative : lexicon.Relative)
    (found : lexicon.substates[state]? = some size) (positive : 0 < lexicon.tagCount state s)
    {name : String} (uncounted : lexicon.count state name s = 0) :
    let total := ((lexicon.tables.wordTotals.map Prod.fst).map fun word =>
        pruned lexicon.settings.threshold (lexicon.wordShare state word s)).sum
      + lexicon.wordShare state name s
    1 ≤ total ∧ (total = 1 ↔ ∀ word, lexicon.knows word = true →
      lexicon.settings.threshold ≤ lexicon.wordShare state word s) := by
  have whole := relative.sum_wordShare found positive uncounted
  have lifted (word : String) := le_pruned relative.threshold (lexicon.wordShare state word s)
  intro total
  constructor
  · rw [← whole]
    exact add_le_add_left (List.sum_le_sum fun word _ => lifted word) _
  constructor
  · intro one word known
    by_contra below
    have changed := mt (pruned_eq_iff relative.threshold).mp below
    have less := List.sum_lt_sum (fun word => lexicon.wordShare state word s)
      (fun word => pruned lexicon.settings.threshold (lexicon.wordShare state word s))
      (fun word _ => lifted word)
      ⟨word, NameTable.contains_iff.mp known, lt_of_le_of_ne (lifted word) (Ne.symm changed)⟩
    exact absurd (one.trans whole.symm) (add_lt_add_left less _).ne'
  · intro above
    refine Eq.trans (congrArg (· + _) (congrArg List.sum (List.map_congr_left ?_))) whole
    intro word member
    exact (pruned_eq_iff relative.threshold).mpr (above word (NameTable.contains_iff.mpr member))

/-- The scores of all known words and of one word without counts are a distribution, unless a share
below zero is pruned. -/
theorem Relative.sum_scores (relative : lexicon.Relative) (positive : 0 < lexicon.tagCount state s)
    (positions : String → Nat) {other : String} {position : Nat}
    (unknown : lexicon.knows other = false)
    (uncounted : lexicon.count state (signature other position) s = 0) :
    ∃ rows scores,
      lexicon.tables.wordTotals.mapM (fun named =>
        lexicon.score named.1 state (positions named.1)) = .ok rows ∧
      lexicon.score other state position = .ok scores ∧
      1 ≤ (rows.map (entry · s)).sum + entry scores s ∧
      ((rows.map (entry · s)).sum + entry scores s = 1 ↔ ∀ word, lexicon.knows word = true →
        lexicon.settings.threshold ≤ lexicon.wordShare state word s) := by
  obtain ⟨size, found, below⟩ := relative.exists_size positive
  have some : ¬lexicon.tagCount state s ≤ 0 := positive.not_ge
  have here (word : String) (position : Nat) :
      entry ((List.range size).map fun s => pruned lexicon.settings.threshold
        (if lexicon.tagCount state s ≤ 0 then 0
          else lexicon.wordShare state (lexicon.lookupName word position) s)) s =
        pruned lexicon.settings.threshold
          (lexicon.wordShare state (lexicon.lookupName word position) s) := by
    rw [entry_map_range below, if_neg some]
  refine ⟨_, _, mapM_eq_map fun named _ => relative.score_eq found named.1 _,
    relative.score_eq found other position, ?_⟩
  have kept : pruned lexicon.settings.threshold
      (lexicon.wordShare state (lexicon.lookupName other position) s) =
      lexicon.wordShare state (signature other position) s := by
    rw [lookupName, unknown, if_neg Bool.false_ne_true]
    have nonnegative := relative.wordShare_nonneg positive uncounted.ge
    exact (pruned_eq_iff relative.threshold).mpr (relative.threshold.trans nonnegative)
  have known : ((lexicon.tables.wordTotals.map fun named =>
        (List.range size).map fun s => pruned lexicon.settings.threshold
          (if lexicon.tagCount state s ≤ 0 then 0
            else lexicon.wordShare state
              (lexicon.lookupName named.1 (positions named.1)) s)).map (entry · s)) =
      (lexicon.tables.wordTotals.map Prod.fst).map fun word =>
        pruned lexicon.settings.threshold (lexicon.wordShare state word s) := by
    rw [List.map_map, List.map_map]
    refine List.map_congr_left fun named member => ?_
    have present : lexicon.knows named.1 = true :=
      NameTable.contains_iff.mpr (List.mem_map_of_mem member)
    refine (here named.1 _).trans ?_
    rw [lookupName, if_pos present]
    rfl
  rw [here, kept, known]
  exact relative.sum_pruned found positive uncounted

end Lexicon

/-- A lexicon of relative frequencies is a distribution over the words it knows and one more. The
columns that this takes add up as long as tokens are only counted, and again after every split and
every merge. A negative count can lift the sum above one, by being pruned. -/
theorem Lexicon.simple_distribution {γ : Type} [Draws γ α] :
    (∀ lexicon : Lexicon α, lexicon.Relative → ∀ state s, 0 < lexicon.tagCount state s →
      ∀ (positions : String → Nat) (other : String) (position : Nat),
        lexicon.knows other = false → lexicon.count state (signature other position) s = 0 →
          ∃ rows scores,
            lexicon.tables.wordTotals.mapM (fun named =>
              lexicon.score named.1 state (positions named.1)) = .ok rows ∧
            lexicon.score other state position = .ok scores ∧
            1 ≤ (rows.map (entry · s)).sum + entry scores s ∧
            ((rows.map (entry · s)).sum + entry scores s = 1 ↔
              ∀ word, lexicon.knows word = true →
                lexicon.settings.threshold ≤ lexicon.wordShare state word s) ∧
            ((∀ word, lexicon.knows word = true → 0 ≤ lexicon.count state word s) →
              (rows.map (entry · s)).sum + entry scores s = 1)) ∧
    (∀ (frame : LexiconFrame α) (counts : EmissionCounts α), counts.Tallied frame →
      counts.estimate.tables.TagsSummed counts.estimate.substates) ∧
    (∀ (lexicon split : Lexicon α) (randomness : α) (counts : List Nat) (unbounded : Bool)
      (stream rest : γ), lexicon.split randomness counts unbounded stream = .ok (split, rest) →
        split.tables.TagsSummed split.substates) ∧
    ∀ (lexicon merged : Lexicon α) (mappings : List (List Nat)),
      lexicon.merge mappings = .ok merged → merged.tables.TagsSummed merged.substates := by
  refine ⟨?_, ?_, ?_, ?_⟩
  · intro lexicon relative state s positive positions other position unknown uncounted
    obtain ⟨rows, scores, known, further, least, exact_⟩ :=
      relative.sum_scores positive positions unknown uncounted
    refine ⟨rows, scores, known, further, least, exact_, fun counted => ?_⟩
    refine exact_.mpr fun word present => ?_
    exact relative.threshold.trans (relative.wordShare_nonneg positive (counted word present))
  · intro frame counts tallied
    have columnsIn := tallied.columnsIn
    have summed := columnsIn.tagsSummed
    rw [← columnsIn.inFrame.frame_eq] at summed
    exact summed
  · intro lexicon split randomness counts unbounded stream rest success
    exact (lexicon.split_tagsSummed randomness counts unbounded stream).of_ok success
  · intro lexicon merged mappings success
    exact (lexicon.merge_tagsSummed mappings).of_ok success

/-- A tag with two words, and what its first substate has of them. -/
def frequencyLexicon (smoothing rain fell : Rat) : Lexicon Rat where
  substates := [1, 2]
  root := 0
  settings := { LexiconSettings.standard with
    kind := .simple, wordSmoothing := smoothing, threshold := 0 }
  smoothing := .none
  ancestry := [⟨[some 0]⟩, ⟨[some 0, some 0]⟩]
  tables := {
    tagCounts := [[0], [rain + fell, 2]]
    wordCounts := [[], [("rain", [rain, 1]), ("fell", [fell, 1])]]
    wordTotals := [("rain", 2), ("fell", 2)]
    totalTokens := 4
    unseenTagCounts := [[0], [0, 0]]
    unseenSignatureCounts := [[], []]
    unseenSignatureTotals := []
    unseenTotal := 0 }

theorem frequencyLexicon_relative {smoothing : Rat} (nonnegative : 0 ≤ smoothing)
    (rain fell : Rat) : (frequencyLexicon smoothing rain fell).Relative where
  consistent := {
    ancestry := .cons rfl (.cons rfl .nil)
    tables := {
      tagCounts := .cons rfl (.cons rfl .nil)
      wordCounts := .cons (by simp [NameTable.Fits]) (.cons (by simp [NameTable.Fits]) .nil)
      unseenTagCounts := .cons rfl (.cons rfl .nil)
      unseenSignatureCounts :=
        .cons (by simp [NameTable.Fits]) (.cons (by simp [NameTable.Fits]) .nil) } }
  distinct := by
    constructor <;> simp [frequencyLexicon, NameTable.Distinct]
  kind := rfl
  smoothing := rfl
  wordSmoothing := nonnegative
  threshold := le_rfl
  known := by
    simp only [frequencyLexicon, Lexicon.knows, NameTable.contains_iff]
    intro words member word present
    rcases List.mem_pair.mp member with rfl | rfl
    · cases present
    · exact present
  summed := by
    simp [EmissionTables.TagsSummed, frequencyLexicon, EmissionTables.columnSums, Scalar.addInto]
    norm_num

/-- A word that is not among the two, and whose signature has not been counted. -/
theorem frequencyLexicon_snow (smoothing rain fell : Rat) :
    (frequencyLexicon smoothing rain fell).knows "snow" = false ∧
      (frequencyLexicon smoothing rain fell).count 1 (signature "snow" 0) 0 = 0 := by
  have shape : signature "snow" 0 = "UNK" := by decide +kernel
  rw [shape]
  exact ⟨rfl, rfl⟩

theorem frequencyLexicon_scores :
    ∃ rows scores,
      (frequencyLexicon (1 / 2) 1 3).tables.wordTotals.mapM (fun named =>
        (frequencyLexicon (1 / 2) 1 3).score named.1 1 0) = .ok rows ∧
      (frequencyLexicon (1 / 2) 1 3).score "snow" 1 0 = .ok scores ∧
      (rows.map (entry · 0)).sum + entry scores 0 = 1 := by
  have relative := frequencyLexicon_relative (by norm_num : (0 : Rat) ≤ 1 / 2) 1 3
  have positive : 0 < (frequencyLexicon (1 / 2) 1 3).tagCount 1 0 := by decide +kernel
  obtain ⟨unknown, uncounted⟩ := frequencyLexicon_snow (1 / 2) 1 3
  obtain ⟨rows, scores, known, further, -, -, one⟩ :=
    (Lexicon.simple_distribution (γ := Unit)).1 _ relative 1 0 positive (fun _ => 0) "snow" 0
      unknown uncounted
  refine ⟨rows, scores, known, further, one ?_⟩
  intro word present
  have listed := NameTable.contains_iff.mp present
  have two : word = "rain" ∨ word = "fell" := by simpa [frequencyLexicon] using listed
  rcases two with rfl | rfl <;> decide +kernel

/-- Where a count is negative, the scores of all words can add up to two. -/
theorem owing_scores :
    ¬∀ lexicon : Lexicon Rat, lexicon.Relative → ∀ state s, 0 < lexicon.tagCount state s →
      ∀ (positions : String → Nat) (other : String) (position : Nat),
        lexicon.knows other = false → lexicon.count state (signature other position) s = 0 →
          ∀ rows scores,
            lexicon.tables.wordTotals.mapM (fun named =>
              lexicon.score named.1 state (positions named.1)) = .ok rows →
            lexicon.score other state position = .ok scores →
            (rows.map (entry · s)).sum + entry scores s = 1 := by
  intro claimed
  have relative := frequencyLexicon_relative (le_refl 0) 2 (-1)
  have positive : 0 < (frequencyLexicon 0 2 (-1)).tagCount 1 0 := by decide +kernel
  obtain ⟨unknown, uncounted⟩ := frequencyLexicon_snow 0 2 (-1)
  have one := claimed _ relative 1 0 positive (fun _ => 0) "snow" 0 unknown uncounted
    [[2, 1 / 2], [0, 1 / 2]] [0, 0] (by decide +kernel) (by decide +kernel)
  simp [entry] at one

end LatentGrammar
