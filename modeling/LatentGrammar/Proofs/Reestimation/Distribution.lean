import LatentGrammar.Proofs.Reestimation.Mixing
import LatentGrammar.Proofs.Reestimation.Uses
import LatentGrammar.Proofs.Consistency.Run

namespace LatentGrammar

open Finset

variable {α : Type} [ExactScalar α] {substates : List Nat}

namespace RuleTable

variable {table other : RuleTable α}

/-- The rules of a category, each with the substates that its children may have. -/
def combinations (table : RuleTable α) (state : Nat) : Finset (Σ _ : Production, Nat × Nat) :=
  {key ∈ table.keys | key.parent = state}.sigma fun key =>
    (table.find? key).elim ∅ fun block => range block.lefts ×ˢ range block.rights

theorem parentSum_eq_sum (state s : Nat) : table.parentSum state s =
    ∑ place ∈ table.combinations state, table.cell place.1 s place.2.1 place.2.2 := by
  rw [combinations, sum_sigma, parentSum]
  refine sum_congr rfl fun key _ => ?_
  unfold sumRow
  cases table.find? key with
  | none => simp only [Option.elim, sum_empty]
  | some block => simp only [Option.elim, sum_product]

omit [ExactScalar α] in
theorem parent_of_mem {state : Nat} {place : Σ _ : Production, Nat × Nat}
    (member : place ∈ table.combinations state) : place.1.parent = state :=
  (mem_filter.mp (mem_sigma.mp member).1).2

omit [ExactScalar α] in
theorem Fits.mem_combinations (fits : table.Fits substates) {state j k : Nat} {key : Production} :
    (⟨key, j, k⟩ : Σ _ : Production, Nat × Nat) ∈ table.combinations state ↔
      key.parent = state ∧ (table.find? key).isSome ∧ ∃ parents lefts rights,
        key.dimensions substates = .ok (parents, lefts, rights) ∧ j < lefts ∧ k < rights := by
  rw [combinations, mem_sigma, mem_filter, mem_keys, ← Option.isSome_iff_exists]
  cases found : table.find? key with
  | none => simp
  | some block =>
    obtain ⟨parents, lefts, rights, dimensions, sized⟩ := fits.find? found
    simp only [Option.isSome_some, true_and, Option.elim, mem_product, mem_range, sized.lefts_eq,
      sized.rights_eq]
    refine and_congr_right fun _ => ⟨fun inside => ⟨_, _, _, dimensions, inside⟩, ?_⟩
    rintro ⟨_, _, _, again, inside⟩
    cases dimensions.symm.trans again
    exact inside

theorem Fits.cell_le_parentSum (fits : table.Fits substates)
    (nonneg : ∀ key i j k, 0 ≤ table.cell key i j k) {key : Production} {parents lefts rights : Nat}
    (dimensions : key.dimensions substates = .ok (parents, lefts, rights)) {i j k : Nat}
    (left : j < lefts) (right : k < rights) :
    table.cell key i j k ≤ table.parentSum key.parent i := by
  cases found : table.find? key with
  | none =>
    rw [cell_of_absent found]
    exact parentSum_nonneg nonneg _ _
  | some block =>
    have listed : (⟨key, j, k⟩ : Σ _ : Production, Nat × Nat) ∈ table.combinations key.parent :=
      fits.mem_combinations.mpr ⟨rfl, by rw [found]; rfl, _, _, _, dimensions, left, right⟩
    rw [parentSum_eq_sum]
    exact single_le_sum (f := fun place : Σ _ : Production, Nat × Nat =>
      table.cell place.1 i place.2.1 place.2.2) (fun place _ => nonneg _ _ _ _) listed

omit [ExactScalar α] in
theorem Fits.combinations_eq (fits : table.Fits substates) (otherFits : other.Fits substates)
    (same : ∀ key, (other.find? key).isSome = (table.find? key).isSome) (state : Nat) :
    other.combinations state = table.combinations state := by
  ext ⟨key, j, k⟩
  rw [fits.mem_combinations, otherFits.mem_combinations, same]

end RuleTable

namespace RuleCounts

variable {counts : RuleCounts α} {key : Production} {parents lefts rights state i : Nat}

/-- The share that a cell has of the counts in its row, unless it is pruned. -/
def share (counts : RuleCounts α) (key : Production) (i j k : Nat) : α :=
  probability counts.threshold (counts.rules.parentSum key.parent i) (counts.rules.cell key i j k)

/-- The row of a substate has nothing that is pruned. -/
def Keeps (counts : RuleCounts α) (state i : Nat) : Prop :=
  ∀ place ∈ counts.rules.combinations state, 0 < counts.rules.cell place.1 i place.2.1 place.2.2 →
    counts.threshold ≤
      counts.rules.cell place.1 i place.2.1 place.2.2 / counts.rules.parentSum state i

theorem probability_of_nonneg {threshold total count : α} (totaled : 0 ≤ total) :
    probability threshold total count =
      if count / total < threshold then 0 else count / total := by
  unfold probability
  rcases totaled.eq_or_lt with rfl | positive
  · simp only [lt_irrefl, if_false, div_zero]
  · simp only [if_pos positive]

section Counted

variable (counted : ∀ key i j k, 0 ≤ counts.rules.cell key i j k)

include counted

theorem share_nonneg (key : Production) (i j k : Nat) : 0 ≤ counts.share key i j k := by
  have total := RuleTable.parentSum_nonneg counted key.parent i
  rw [share, probability_of_nonneg total]
  split
  · exact le_rfl
  · exact div_nonneg (counted key i j k) total

theorem share_le (key : Production) (i j k : Nat) : counts.share key i j k ≤
    counts.rules.cell key i j k / counts.rules.parentSum key.parent i := by
  have total := RuleTable.parentSum_nonneg counted key.parent i
  rw [share, probability_of_nonneg total]
  split
  · exact div_nonneg (counted key i j k) total
  · exact le_rfl

theorem sum_share_le_one (state i : Nat) :
    ∑ place ∈ counts.rules.combinations state, counts.share place.1 i place.2.1 place.2.2 ≤ 1 := by
  calc ∑ place ∈ counts.rules.combinations state, counts.share place.1 i place.2.1 place.2.2
      ≤ ∑ place ∈ counts.rules.combinations state,
          counts.rules.cell place.1 i place.2.1 place.2.2 / counts.rules.parentSum state i := by
        refine sum_le_sum fun place member => ?_
        rw [← RuleTable.parent_of_mem member]
        exact share_le counted _ _ _ _
    _ = counts.rules.parentSum state i / counts.rules.parentSum state i := by
        rw [← sum_div, ← RuleTable.parentSum_eq_sum]
    _ ≤ 1 := div_self_le_one _

theorem sum_share_eq_one (positive : 0 < counts.rules.parentSum state i)
    (keeps : counts.Keeps state i) :
    ∑ place ∈ counts.rules.combinations state, counts.share place.1 i place.2.1 place.2.2 = 1 := by
  have whole : ∀ place ∈ counts.rules.combinations state,
      counts.share place.1 i place.2.1 place.2.2 =
        counts.rules.cell place.1 i place.2.1 place.2.2 / counts.rules.parentSum state i := by
    intro place member
    rw [share, RuleTable.parent_of_mem member, probability_of_nonneg positive.le]
    rcases (counted place.1 i place.2.1 place.2.2).eq_or_lt with zero | some
    · rw [← zero, zero_div, ite_self]
    · exact if_neg (not_lt.mpr (keeps place member some))
  rw [sum_congr rfl whole, ← sum_div, ← RuleTable.parentSum_eq_sum, div_self positive.ne']

omit counted in
theorem share_eq_zero (none : counts.rules.parentSum key.parent i = 0) (j k : Nat) :
    counts.share key i j k = 0 := by
  rw [share, none, probability_of_nonneg le_rfl, div_zero, ite_self]

/-- What smoothing makes of the shares in the row of a substate and in those of its siblings. -/
def smoothedRow (counts : RuleCounts α) (ancestry : Ancestry) (state i : Nat) : α :=
  ∑ n ∈ range ancestry.size, counts.smoothing.weight ancestry i n *
    ∑ place ∈ counts.rules.combinations state, counts.share place.1 n place.2.1 place.2.2

variable {ancestry : Ancestry} (below : i < ancestry.size)

include below

theorem smoothedRow_le_one (proper : counts.smoothing.Proper) (state : Nat) :
    counts.smoothedRow ancestry state i ≤ 1 := by
  calc counts.smoothedRow ancestry state i
      ≤ ∑ n ∈ range ancestry.size, counts.smoothing.weight ancestry i n := by
        refine sum_le_sum fun n _ => mul_le_of_le_one_right ?_ (sum_share_le_one counted state n)
        exact Smoothing.weight_nonneg proper i n
    _ = 1 := Smoothing.sum_weight below

theorem smoothedRow_eq_one (positive : 0 < counts.rules.parentSum state i)
    (keeps : counts.Keeps state i)
    (siblings : counts.smoothing.isActive → ∀ n ∈ ancestry.siblings i,
      0 < counts.rules.parentSum state n ∧ counts.Keeps state n) :
    counts.smoothedRow ancestry state i = 1 := by
  have weights : ∑ n ∈ range ancestry.size, counts.smoothing.weight ancestry i n = 1 :=
    Smoothing.sum_weight below
  rw [smoothedRow, ← weights]
  refine sum_congr rfl fun n _ => ?_
  by_cases sibling : n ∈ ancestry.siblings i
  · by_cases own : n = i
    · rw [own, sum_share_eq_one counted positive keeps, mul_one]
    · by_cases active : counts.smoothing.isActive
      · obtain ⟨some, kept⟩ := siblings active n sibling
        rw [sum_share_eq_one counted some kept, mul_one]
      · rw [Smoothing.weight_eq_zero below (.inr ⟨active, own⟩), zero_mul]
  · rw [Smoothing.weight_eq_zero below (.inl sibling), zero_mul]

omit counted in
theorem smoothedRow_eq_zero (plain : counts.smoothing = .none)
    (none : counts.rules.parentSum state i = 0) : counts.smoothedRow ancestry state i = 0 := by
  refine sum_eq_zero fun n _ => ?_
  by_cases own : n = i
  · have empty : ∀ place ∈ counts.rules.combinations state,
        counts.share place.1 n place.2.1 place.2.2 = 0 := by
      intro place member
      apply share_eq_zero
      rw [RuleTable.parent_of_mem member, own, none]
    rw [sum_eq_zero empty, mul_zero]
  · have inactive : ¬counts.smoothing.isActive := by simp [plain, Smoothing.isActive]
    rw [Smoothing.weight_eq_zero below (.inr ⟨inactive, own⟩), zero_mul]

end Counted

theorem normalizeRule_means {rows : List (List α)} {block : RuleBlock α} {ancestry : Ancestry}
    (sized : List.Forall₂ HasSize rows counts.substates)
    (found : counts.ancestry[key.parent]? = some ancestry) (fits : ancestry.Fits parents)
    (dimensions : key.dimensions counts.substates = .ok (parents, lefts, rights))
    (blockSized : block.Sized parents lefts rights) :
    Delivers Never (fun new => new.Sized parents lefts rights ∧
        ∀ i < parents, ∀ j < lefts, ∀ k < rights, new.cell i j k =
          ∑ n ∈ range parents, counts.smoothing.weight ancestry i n *
            probability counts.threshold (tally rows key.parent n) (block.cell n j k))
      (counts.normalizeRule rows key block) := by
  obtain ⟨row, known, rowSized⟩ :=
    exists_of_forall₂ sized (Production.parent_of_dimensions dimensions)
  simp only [normalizeRule, fetch_eq_ok_iff.mpr known, ok_bind, tally, known, Option.getD_some]
  apply (blockSized.normalize_cells rowSized counts.threshold).bind
  rintro shares ⟨sharesSized, cells⟩
  apply Delivers.ite
  · intro _
    refine (sharesSized.smooth_cells found fits counts.smoothing).mono ?_
    rintro new ⟨newSized, means⟩
    refine ⟨newSized, fun i parent j left k right => ?_⟩
    rw [means i parent j left k right]
    refine sum_congr rfl fun n member => ?_
    rw [cells n (mem_range.mp member) j left k right]
  · intro inactive
    refine ⟨sharesSized, fun i parent j left k right => ?_⟩
    have inside : i < ancestry.size := fits.symm ▸ parent
    have alone : counts.smoothing.weight ancestry i i = 1 := by
      cases plain : counts.smoothing with
      | none => exact if_pos rfl
      | acrossSiblings strength => exact absurd (by rw [plain]; rfl) inactive
    rw [cells i parent j left k right, sum_eq_single_of_mem i (mem_range.mpr parent), alone, one_mul]
    intro n _ different
    rw [Smoothing.weight_eq_zero inside (.inr ⟨inactive, different⟩), zero_mul]

theorem normalize_means (fits : counts.rules.Fits counts.substates) (ordered : counts.rules.Ordered)
    (lineages : List.Forall₂ Ancestry.Fits counts.ancestry counts.substates)
    {zeros : List (List α)} (start : counts.substates.mapM (fill · (0 : α)) = .ok zeros) :
    ∃ grammar, counts.normalize = .ok grammar ∧
      grammar.toGrammarFrame = counts.toGrammarFrame ∧
      grammar.rules.entries.map Prod.fst = counts.rules.entries.map Prod.fst ∧
      grammar.rules.Fits counts.substates ∧
      ∀ key parents lefts rights ancestry,
        key.dimensions counts.substates = .ok (parents, lefts, rights) →
        counts.ancestry[key.parent]? = some ancestry →
        ∀ i < parents, ∀ j < lefts, ∀ k < rights, grammar.rules.cell key i j k =
          ∑ n ∈ range parents, counts.smoothing.weight ancestry i n * counts.share key n j k := by
  obtain ⟨rows, totaled, sized, totals⟩ := totals_eq fits ordered start
  have lineage {key : Production} {parents lefts rights : Nat}
      (dimensions : key.dimensions counts.substates = .ok (parents, lefts, rights)) :
      ∃ ancestry, counts.ancestry[key.parent]? = some ancestry ∧ ancestry.Fits parents :=
    exists_of_forall₂ lineages (Production.parent_of_dimensions dimensions)
  obtain ⟨grammar, normalized, frame, rulesFit, replaced⟩ := normalize_replaces fits totaled
    (fun key parents lefts rights block new => ∃ ancestry,
      counts.ancestry[key.parent]? = some ancestry ∧
      ∀ i < parents, ∀ j < lefts, ∀ k < rights, new.cell i j k =
        ∑ n ∈ range parents, counts.smoothing.weight ancestry i n *
          probability counts.threshold (tally rows key.parent n) (block.cell n j k))
    fun key parents lefts rights block dimensions blockSized => by
      obtain ⟨ancestry, found, ancestryFits⟩ := lineage dimensions
      exact (normalizeRule_means sized found ancestryFits dimensions blockSized).mono
        fun _ means => ⟨means.1, ancestry, found, means.2⟩
  refine ⟨grammar, normalized, frame, normalize_keys normalized, rulesFit, ?_⟩
  intro key parents lefts rights ancestry dimensions found i parent j left k right
  have here := replaced key parents lefts rights dimensions
  cases known : counts.rules.find? key with
  | none =>
    rw [known] at here
    have absent (n : Nat) : counts.share key n j k = 0 := by
      simp only [share, probability, RuleTable.cell_of_absent known, zero_div, ite_self]
    simp only [RuleTable.cell_of_absent here, absent, mul_zero, sum_const_zero]
  | some block =>
    rw [known] at here
    obtain ⟨new, present, _, again, means⟩ := here
    obtain rfl := Option.some.inj (found.symm.trans again)
    simp only [RuleTable.cell_of_find? present, share, RuleTable.cell_of_find? known]
    rw [means i parent j left k right]
    refine sum_congr rfl fun n member => ?_
    rw [totals _ _ (Production.parent_of_dimensions dimensions) n (mem_range.mp member)]

/-- The probabilities in a row are weighted means of the shares in the rows of its siblings. -/
theorem normalize_sums (counted : ∀ key i j k, 0 ≤ counts.rules.cell key i j k)
    (proper : counts.smoothing.Proper)
    (fits : counts.rules.Fits counts.substates) (ordered : counts.rules.Ordered)
    (lineages : List.Forall₂ Ancestry.Fits counts.ancestry counts.substates)
    {zeros : List (List α)} (start : counts.substates.mapM (fill · (0 : α)) = .ok zeros) :
    ∃ grammar, counts.normalize = .ok grammar ∧
      grammar.toGrammarFrame = counts.toGrammarFrame ∧
      grammar.rules.entries.map Prod.fst = counts.rules.entries.map Prod.fst ∧
      grammar.rules.Fits counts.substates ∧ (∀ key i j k, 0 ≤ grammar.rules.cell key i j k) ∧
      ∀ state size ancestry, counts.substates[state]? = some size →
        counts.ancestry[state]? = some ancestry → ancestry.size = size → ∀ i < size,
          grammar.rules.parentSum state i = counts.smoothedRow ancestry state i := by
  obtain ⟨grammar, normalized, frame, keys, grammarFits, means⟩ :=
    normalize_means fits ordered lineages start
  refine ⟨grammar, normalized, frame, keys, grammarFits, fun key i j k => ?_, ?_⟩
  · refine grammarFits.score_nonneg (fun use listed => ?_) (key, i, j, k)
    obtain ⟨-, parents, lefts, rights, dimensions, parent, left, right⟩ :=
      grammarFits.mem_uses.mp listed
    obtain ⟨ancestry, found, -⟩ :=
      exists_of_forall₂ lineages (Production.parent_of_dimensions dimensions)
    rw [RuleTable.score, means use.1 parents lefts rights ancestry dimensions found _ parent _ left
      _ right]
    exact sum_nonneg fun n _ => mul_nonneg (Smoothing.weight_nonneg proper _ n)
      (share_nonneg counted _ _ _ _)
  · rintro state _ ancestry known found rfl i below
    rw [RuleTable.parentSum_eq_sum, fits.combinations_eq grammarFits (RuleTable.find?_isSome_of_keys keys)]
    -- The mean is taken cell by cell; exchanging the sums takes it row by row.
    simp only [smoothedRow, mul_sum]
    rw [sum_comm]
    refine sum_congr rfl fun place member => ?_
    obtain ⟨key, j, k⟩ := place
    obtain ⟨rfl, -, parents, lefts, rights, dimensions, left, right⟩ :=
      fits.mem_combinations.mp member
    obtain rfl := Option.some.inj (known.symm.trans (Production.parent_of_dimensions dimensions))
    exact means key _ lefts rights ancestry dimensions found i below j left k right

/-- The probabilities of a grammar are those of counts: every row of a category adds up to at most
one, and to one if nothing is lost to pruning or to siblings without counts. -/
structure Distributes (counts : RuleCounts α) (grammar : Grammar α) : Prop where
  frame_eq : grammar.toGrammarFrame = counts.toGrammarFrame
  keys_eq : grammar.rules.entries.map Prod.fst = counts.rules.entries.map Prod.fst
  cells : ∀ key parents lefts rights, key.dimensions counts.substates = .ok (parents, lefts, rights) →
    ∀ i < parents, ∀ j < lefts, ∀ k < rights,
      0 ≤ grammar.rules.cell key i j k ∧ grammar.rules.cell key i j k ≤ 1
  atMost : ∀ state size, counts.substates[state]? = some size → ∀ i < size,
    grammar.rules.parentSum state i ≤ 1
  whole : ∀ state size ancestry, counts.substates[state]? = some size →
    counts.ancestry[state]? = some ancestry → ∀ i < size,
    0 < counts.rules.parentSum state i → counts.Keeps state i →
    (counts.smoothing.isActive → ∀ n ∈ ancestry.siblings i,
      0 < counts.rules.parentSum state n ∧ counts.Keeps state n) →
    grammar.rules.parentSum state i = 1
  nothing : ∀ state size, counts.substates[state]? = some size → ∀ i < size,
    counts.smoothing = .none → counts.rules.parentSum state i = 0 →
    grammar.rules.parentSum state i = 0

/-- Numbers of substates that there is no memory for. -/
def Crowded (substates : List Nat) (fault : Fault) : Prop :=
  fault = .overflow ∧ ∃ size ∈ substates, Word.tableLimit ≤ size

/-- Normalization makes a distribution of counts that are not negative. -/
theorem normalize_distributes (counted : ∀ key i j k, 0 ≤ counts.rules.cell key i j k)
    (proper : counts.smoothing.Proper)
    (fits : counts.rules.Fits counts.substates) (ordered : counts.rules.Ordered)
    (lineages : List.Forall₂ Ancestry.Fits counts.ancestry counts.substates) :
    Delivers (Crowded counts.substates) counts.Distributes counts.normalize := by
  have zeros : Delivers (Crowded counts.substates) (fun _ => True)
      (counts.substates.mapM (fill · (0 : α))) :=
    (Delivers.mapM fun size member => (delivers_fill_or_overflow fun many =>
      ⟨rfl, size, member, many⟩).mono fun _ _ => trivial).mono fun _ _ => trivial
  cases start : counts.substates.mapM (fill · (0 : α)) with
  | error fault =>
    rw [start] at zeros
    simp only [normalize, totals, start]
    exact zeros
  | ok rows =>
    obtain ⟨grammar, normalized, frame, keys, grammarFits, nonneg, sums⟩ :=
      normalize_sums counted proper fits ordered lineages start
    have row (state size : Nat) (known : counts.substates[state]? = some size) :
        ∃ ancestry, counts.ancestry[state]? = some ancestry ∧ ancestry.size = size ∧ ∀ i < size,
          grammar.rules.parentSum state i = counts.smoothedRow ancestry state i := by
      obtain ⟨ancestry, found, sized⟩ := exists_of_forall₂ lineages known
      exact ⟨ancestry, found, sized, sums state size ancestry known found sized⟩
    have atMost (state size : Nat) (known : counts.substates[state]? = some size) (i : Nat)
        (below : i < size) : grammar.rules.parentSum state i ≤ 1 := by
      obtain ⟨ancestry, -, rfl, rows⟩ := row state size known
      exact (rows i below).trans_le (smoothedRow_le_one counted below proper state)
    rw [normalized]
    refine ⟨frame, keys, ?_, atMost, ?_, ?_⟩
    · intro key parents lefts rights dimensions i parent j left k right
      have total := atMost _ _ (Production.parent_of_dimensions dimensions) i parent
      exact ⟨nonneg key i j k,
        (grammarFits.cell_le_parentSum nonneg dimensions left right).trans total⟩
    · intro state size ancestry known found i below positive keeps siblings
      obtain ⟨_, again, rfl, rows⟩ := row state size known
      obtain rfl := Option.some.inj (found.symm.trans again)
      exact (rows i below).trans (smoothedRow_eq_one counted below positive keeps siblings)
    · intro state size known i below plain none
      obtain ⟨ancestry, -, rfl, rows⟩ := row state size known
      exact (rows i below).trans (smoothedRow_eq_zero below plain none)

section Noise

variable {γ : Type} [Draws γ α] {randomness : α}

/-- The counts that are normalized: with noise, if there is to be any. -/
def noisy (counts : RuleCounts α) (randomness : α) (stream : γ) : RuleCounts α :=
  if 0 < randomness then
    { counts with rules := ⟨(perturbRules randomness counts.rules.entries stream).1⟩ }
  else counts

theorem estimate_eq (counts : RuleCounts α) (randomness : α) (stream : γ) :
    ∃ later, counts.estimate randomness stream =
      (counts.noisy randomness stream).normalize >>= fun grammar => .ok (grammar, later) := by
  unfold estimate noisy
  by_cases noise : 0 < randomness
  · exact ⟨_, by simp only [if_pos noise]; rfl⟩
  · exact ⟨_, by simp only [if_neg noise]; rfl⟩

theorem noisy_frame (counts : RuleCounts α) (randomness : α) (stream : γ) :
    (counts.noisy randomness stream).toGrammarFrame = counts.toGrammarFrame := by
  unfold noisy
  split <;> rfl

/-- The stream draws from the unit interval. -/
def UnitDraws (γ : Type) {α : Type} [ExactScalar α] [Draws γ α] : Prop :=
  ∀ stream : γ, 0 ≤ (Draws.draw stream).1 ∧ (Draws.draw stream).1 ≤ 1

variable (unit : UnitDraws γ) (low : 0 ≤ randomness) (high : randomness < 100)

include unit low high

/-- Noise of less than all of a count leaves something of it. -/
theorem perturbation_pos (stream : γ) : 0 < (perturbation randomness stream).1 := by
  obtain ⟨least, -⟩ := unit stream
  have part : randomness / ((100 : Nat) : α) < 1 := by
    rw [Nat.cast_ofNat, div_lt_one (by norm_num)]
    exact high
  have share : 0 ≤ randomness / ((100 : Nat) : α) := div_nonneg low (Nat.cast_nonneg _)
  have drawn : 0 ≤ randomness / ((100 : Nat) : α) * (Draws.draw stream).1 := mul_nonneg share least
  have factor : (perturbation randomness stream).1 =
      1 + randomness / ((100 : Nat) : α) * ((Draws.draw stream).1 * ((2 : Nat) : α) - 1) := rfl
  rw [factor, Nat.cast_ofNat (n := 2)]
  linarith

theorem getElem?_perturbAll (values : List α) (stream : γ) (n : Nat) :
    ∃ factor, 0 < factor ∧
      (perturbAll randomness values stream).1[n]? = values[n]?.map (· * factor) := by
  induction values generalizing stream n with
  | nil => exact ⟨1, zero_lt_one, rfl⟩
  | cons value rest ih =>
    cases n with
    | zero => exact ⟨_, perturbation_pos unit low high stream, rfl⟩
    | succ n => exact ih (perturbation randomness stream).2 n

theorem cell_perturbRules (entries : List (Production × RuleBlock α)) (stream : γ)
    (key : Production) (i j k : Nat) :
    ∃ factor, 0 < factor ∧
      (⟨(perturbRules randomness entries stream).1⟩ : RuleTable α).cell key i j k =
        (⟨entries⟩ : RuleTable α).cell key i j k * factor := by
  induction entries generalizing stream with
  | nil => exact ⟨1, zero_lt_one, (zero_mul _).symm⟩
  | cons entry rest ih =>
    obtain ⟨other, block⟩ := entry
    by_cases same : key = other
    · subst same
      obtain ⟨factor, positive, scaled⟩ :=
        getElem?_perturbAll unit low high block.cells.toList stream (block.offset i j k)
      refine ⟨factor, positive, ?_⟩
      have offset (cells : Array α) :
          ({ block with cells } : RuleBlock α).offset i j k = block.offset i j k := rfl
      simp only [RuleTable.cell, RuleTable.find?, perturbRules, List.lookup_cons_self,
        RuleBlock.cell, offset, List.getElem?_toArray, scaled, Array.getElem?_toList]
      cases block.cells[block.offset i j k]? with
      | none => simp
      | some value => rfl
    · have later (head : RuleBlock α) (tail : List (Production × RuleBlock α)) :
          (⟨(other, head) :: tail⟩ : RuleTable α).cell key i j k =
            (⟨tail⟩ : RuleTable α).cell key i j k := by
        simp only [RuleTable.cell, RuleTable.find?, List.lookup_cons, beq_false_of_ne same]
      obtain ⟨factor, positive, scaled⟩ := ih (perturbAll randomness block.cells.toList stream).2
      refine ⟨factor, positive, ?_⟩
      rw [later, ← scaled]
      exact later _ _

omit unit low high in
theorem perturbRules_keys (entries : List (Production × RuleBlock α)) (stream : γ) :
    (perturbRules randomness entries stream).1.map Prod.fst = entries.map Prod.fst := by
  induction entries generalizing stream with
  | nil => rfl
  | cons entry rest ih => exact congrArg (entry.1 :: ·) (ih _)

omit unit low high in
theorem noisy_keys (counts : RuleCounts α) (stream : γ) :
    (counts.noisy randomness stream).rules.entries.map Prod.fst =
      counts.rules.entries.map Prod.fst := by
  unfold noisy
  split
  · exact perturbRules_keys _ _
  · rfl

omit unit low high in
theorem noisy_fits (fits : counts.rules.Fits substates) (stream : γ) :
    (counts.noisy randomness stream).rules.Fits substates := by
  unfold noisy
  split
  · exact perturbRules_fits randomness fits stream
  · exact fits

theorem noisy_cell (counts : RuleCounts α) (stream : γ) (key : Production) (i j k : Nat) :
    ∃ factor, 0 < factor ∧ (counts.noisy randomness stream).rules.cell key i j k =
      counts.rules.cell key i j k * factor := by
  unfold noisy
  split
  · exact cell_perturbRules unit low high counts.rules.entries stream key i j k
  · exact ⟨1, zero_lt_one, (mul_one _).symm⟩

end Noise

/-- Estimated probabilities lie in the unit interval and add up to at most one in every row. -/
theorem estimate_distribution {γ : Type} [Draws γ α] (unit : UnitDraws γ)
    (counted : ∀ key i j k, 0 ≤ counts.rules.cell key i j k)
    (fits : counts.rules.Fits counts.substates) (ordered : counts.rules.Ordered)
    (lineages : List.Forall₂ Ancestry.Fits counts.ancestry counts.substates)
    (proper : counts.smoothing.Proper) {randomness : α} (low : 0 ≤ randomness)
    (high : randomness < 100) (stream : γ) :
    Delivers (Crowded counts.substates)
      (fun (grammar, _) => (counts.noisy randomness stream).Distributes grammar ∧
        grammar.toGrammarFrame = counts.toGrammarFrame ∧
        grammar.rules.entries.map Prod.fst = counts.rules.entries.map Prod.fst)
      (counts.estimate randomness stream) := by
  obtain ⟨later, estimated⟩ := counts.estimate_eq randomness stream
  have frame := counts.noisy_frame randomness stream
  have keys : (counts.noisy randomness stream).rules.entries.map Prod.fst = _ :=
    counts.noisy_keys stream
  have cells := noisy_cell unit low high counts stream
  have noisyFits : (counts.noisy randomness stream).rules.Fits counts.substates :=
    noisy_fits fits stream
  rw [estimated]
  generalize counts.noisy randomness stream = noisy at *
  have sizes : noisy.substates = counts.substates := congrArg GrammarFrame.substates frame
  have noisyCounted (key : Production) (i j k : Nat) : 0 ≤ noisy.rules.cell key i j k := by
    obtain ⟨factor, positive, scaled⟩ := cells key i j k
    rw [scaled]
    exact mul_nonneg (counted key i j k) positive.le
  have noisyOrdered : noisy.rules.Ordered := by
    rw [RuleTable.Ordered, keys]
    exact ordered
  have noisyProper : noisy.smoothing.Proper := by
    rw [congrArg GrammarFrame.smoothing frame]
    exact proper
  have noisyLineages : List.Forall₂ Ancestry.Fits noisy.ancestry noisy.substates := by
    rw [sizes, congrArg GrammarFrame.ancestry frame]
    exact lineages
  rw [← sizes] at noisyFits ⊢
  refine (normalize_distributes noisyCounted noisyProper noisyFits noisyOrdered
    noisyLineages).bind fun grammar distributes => ?_
  exact ⟨distributes, distributes.frame_eq.trans frame, distributes.keys_eq.trans keys⟩

/-- The scores of the small model as counts, whose siblings are smoothed and small shares pruned. -/
def sampleCounts : RuleCounts Rat where
  toGrammarFrame :=
    { sampleModel.grammar.toGrammarFrame with
      smoothing := .acrossSiblings (1 / 4)
      threshold := 1 / 10 }
  rules := sampleModel.grammar.rules

theorem sampleCounts_estimate_distribution :
    ∃ grammar, sampleCounts.estimate 10 () = .ok (grammar, ()) ∧
      grammar.rules.parentSum 1 0 = 1 ∧ grammar.rules.parentSum 1 1 = 1 := by
  have unit : UnitDraws Unit := fun _ => ⟨by norm_num [Draws.draw], by norm_num [Draws.draw]⟩
  have counted : ∀ key i j k, 0 ≤ sampleCounts.rules.cell key i j k := fun key i j k =>
    sampleModel_rules_fit.score_nonneg (by decide +kernel) (key, i, j, k)
  have ordered : sampleCounts.rules.Ordered := by
    simp [RuleTable.Ordered, sampleCounts, sampleModel, Production.before]
  have proper : sampleCounts.smoothing.Proper := by
    intro strength same
    obtain rfl := Option.some.inj same
    norm_num
  have low : (0 : Rat) ≤ 10 := by norm_num
  have high : (10 : Rat) < 100 := by norm_num
  have estimated := estimate_distribution unit counted sampleModel_rules_fit ordered
    sampleModel_lexicon_consistent.ancestry proper low high ()
  have rows : ∀ n < 2, 0 < (sampleCounts.noisy 10 ()).rules.parentSum 1 n ∧
      (sampleCounts.noisy 10 ()).Keeps 1 n := by
    unfold Keeps
    decide +kernel
  have siblings (i : Nat) : ∀ n ∈ (⟨[some 0, some 0]⟩ : Ancestry).siblings i, n < 2 :=
    fun n member => (Ancestry.mem_siblings.mp member).1
  cases done : sampleCounts.estimate 10 () with
  | error fault =>
    rw [done] at estimated
    obtain ⟨-, size, member, many⟩ := estimated
    simp [sampleCounts, sampleModel, Word.tableLimit] at member many
    omega
  | ok result =>
    rw [done] at estimated
    obtain ⟨distributes, -⟩ := estimated
    have whole (i : Nat) (below : i < 2) : result.1.rules.parentSum 1 i = 1 :=
      distributes.whole 1 2 _ rfl rfl i below (rows i below).1 (rows i below).2
        fun _ n member => rows n (siblings i n member)
    exact ⟨result.1, rfl, whole 0 (by decide), whole 1 (by decide)⟩

end RuleCounts

end LatentGrammar
