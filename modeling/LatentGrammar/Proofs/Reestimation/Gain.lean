import LatentGrammar.Proofs.Reestimation.Uses

/-! What re-estimation gains, by logarithms. The log-likelihood of a tree grows at least by the mean
growth over its derivations, which is a sum over the uses of rules; and of all scores whose row adds
up to one at most, shares of counts make this sum the largest. Both are the same inequality. -/

namespace LatentGrammar

open Finset Real

section Logarithms

variable {ι : Type} {items : Finset ι} {old new : ι → ℝ}

/-- The mean growth of the logarithms of weights is at most the growth of the logarithm of their
sum. -/
theorem sum_mul_log_sub_le (oldNonneg : ∀ item ∈ items, 0 ≤ old item)
    (newNonneg : ∀ item ∈ items, 0 ≤ new item)
    (kept : ∀ item ∈ items, 0 < old item → 0 < new item) :
    ∑ item ∈ items, old item * (log (new item) - log (old item)) ≤
      (∑ item ∈ items, old item)
        * (log (∑ item ∈ items, new item) - log (∑ item ∈ items, old item)) := by
  rcases (sum_nonneg oldNonneg).eq_or_lt with none | some
  · have zero := (sum_eq_zero_iff_of_nonneg oldNonneg).mp none.symm
    rw [← none, zero_mul, sum_eq_zero fun item member => by rw [zero item member, zero_mul]]
  have exceeds : ∑ item ∈ items, (0 : ℝ) < ∑ item ∈ items, old item := by
    rwa [sum_const_zero]
  obtain ⟨first, member, positive⟩ := exists_lt_of_sum_lt exceeds
  have newSome : 0 < ∑ item ∈ items, new item :=
    sum_pos' newNonneg ⟨first, member, kept first member positive⟩
  set total := ∑ item ∈ items, old item
  set newTotal := ∑ item ∈ items, new item
  -- The logarithm of a ratio is at most the ratio less one.
  have each (item : ι) (member : item ∈ items) :
      old item * (log (new item) - log (old item)) - old item * (log newTotal - log total) ≤
        new item * (total / newTotal) - old item := by
    rcases (oldNonneg item member).eq_or_lt with none | positive
    · rw [← none]
      simpa using mul_nonneg (newNonneg item member) (div_pos some newSome).le
    · have newPositive := kept item member positive
      have ratio : log (new item / old item * (total / newTotal)) =
          (log (new item) - log (old item)) - (log newTotal - log total) := by
        rw [log_mul (div_pos newPositive positive).ne' (div_pos some newSome).ne',
          log_div newPositive.ne' positive.ne', log_div some.ne' newSome.ne']
        ring
      have bound := log_le_sub_one_of_pos
        (mul_pos (div_pos newPositive positive) (div_pos some newSome))
      rw [ratio] at bound
      calc old item * (log (new item) - log (old item)) - old item * (log newTotal - log total)
        _ = old item * ((log (new item) - log (old item)) - (log newTotal - log total)) := by ring
        _ ≤ old item * (new item / old item * (total / newTotal) - 1) :=
            mul_le_mul_of_nonneg_left bound positive.le
        _ = new item * (total / newTotal) - old item := by field_simp
  have all := sum_le_sum each
  rw [sum_sub_distrib, sum_sub_distrib, ← sum_mul, ← sum_mul] at all
  have even : newTotal * (total / newTotal) - total = 0 := by field_simp; ring
  linarith

/-- No scores that add up to one at most have a larger mean logarithm than the shares of the counts
that the mean is taken with. -/
theorem sum_mul_log_share_sub_nonneg {count score : ι → ℝ}
    (countNonneg : ∀ item ∈ items, 0 ≤ count item) (scoreNonneg : ∀ item ∈ items, 0 ≤ score item)
    (scored : ∀ item ∈ items, 0 < count item → 0 < score item)
    (total : ∑ item ∈ items, score item ≤ 1) :
    0 ≤ ∑ item ∈ items, count item
      * (log (count item / ∑ item ∈ items, count item) - log (score item)) := by
  set counts := ∑ item ∈ items, count item with counted
  have each (item : ι) (member : item ∈ items) :
      count item * (log (count item / counts) - log (score item)) =
        -(count item * (log (score item) - log (count item))) - count item * log counts := by
    rcases (countNonneg item member).eq_or_lt with none | positive
    · simp [← none]
    · have some : 0 < counts := sum_pos' countNonneg ⟨item, member, positive⟩
      rw [log_div positive.ne' some.ne']
      ring
  have bound := sum_mul_log_sub_le countNonneg scoreNonneg scored
  have small : counts * log (∑ item ∈ items, score item) ≤ 0 :=
    mul_nonpos_of_nonneg_of_nonpos (sum_nonneg countNonneg)
      (log_nonpos (sum_nonneg scoreNonneg) total)
  rw [sum_congr rfl each, sum_sub_distrib, sum_neg_distrib, ← sum_mul, ← counted]
  rw [← counted, mul_sub] at bound
  linarith

end Logarithms

theorem sum_map_eq_sum_count {items : List RuleUse} {set : Finset RuleUse}
    (inside : ∀ item ∈ items, item ∈ set) (f : RuleUse → ℝ) :
    (items.map f).sum = ∑ item ∈ set, (items.count item : ℝ) * f item := by
  induction items with
  | nil => simp
  | cons first rest ih =>
    obtain ⟨here, later⟩ := List.forall_mem_cons.mp inside
    simp only [List.map_cons, List.sum_cons, ih later, List.count_cons, beq_iff_eq, Nat.cast_add,
      Nat.cast_ite, Nat.cast_one, Nat.cast_zero, add_mul, sum_add_distrib, ite_mul, one_mul,
      zero_mul, sum_ite_eq, if_pos here, add_comm]

variable {α : Type} [ExactScalar α]

/-- The expected number of a use. -/
def LatentTree.expectedUse (model : Model α) (tree : LatentTree α) (use : RuleUse) : α :=
  tree.expectedUses model use.1 use.2.1 use.2.2.1 use.2.2.2

/-- A lexicon prunes negative scores unless its threshold is negative. -/
theorem Lexicon.emission_nonneg {lexicon : Lexicon α} (prunes : 0 ≤ lexicon.settings.threshold)
    (word : String) (state position s : Nat) : 0 ≤ lexicon.emission word state position s := by
  unfold emission
  cases scored : lexicon.score word state position with
  | error fault => exact le_rfl
  | ok scores =>
    rw [score_eq] at scored
    obtain ⟨size, -, scored⟩ := bind_eq_ok_iff.mp scored
    obtain ⟨raw, -, scored⟩ := bind_eq_ok_iff.mp scored
    obtain ⟨ancestry, -, done⟩ := bind_eq_ok_iff.mp scored
    obtain rfl := Except.ok.inj done
    simp only [List.getElem?_map]
    cases (lexicon.smoothing.smooth ancestry raw)[s]? with
    | none => exact le_rfl
    | some score =>
      by_cases small : score < lexicon.settings.threshold
      · simp [small]
      · simpa [small] using prunes.trans (not_lt.mp small)

/-- No score of a rule or a word is negative. -/
structure Model.Nonneg (model : Model α) : Prop where
  rules : ∀ use, 0 ≤ model.grammar.rules.score use
  words : ∀ word state position s, 0 ≤ model.lexicon.emission word state position s

theorem sampleModel_nonneg : sampleModel.Nonneg :=
  ⟨sampleModel_rules_fit.score_nonneg (by decide +kernel), Lexicon.emission_nonneg le_rfl⟩

variable {real : α →+*o ℝ}

theorem real_pos (increasing : StrictMono real) {x : α} (positive : 0 < x) : 0 < real x := by
  simpa using increasing positive

/-- How much the logarithm of the score of a use grows from one model to the next. -/
noncomputable def Model.gain (real : α →+*o ℝ) (model next : Model α) (use : RuleUse) : ℝ :=
  log (real (next.grammar.rules.score use)) - log (real (model.grammar.rules.score use))

namespace LatentTree

variable {model next : Model α} {tree : LatentTree α} {d : Derivation}

theorem emitted_nonneg (nonneg : model.Nonneg) (position : Nat) (tree : LatentTree α)
    (d : Derivation) : 0 ≤ tree.emitted model.lexicon position d := by
  induction tree generalizing position d with
  | preterminal state word scores =>
    cases d with
    | preterminal s => exact nonneg.words word state position s
    | _ => exact le_rfl
  | unary state scores child ih =>
    cases d with
    | unary s inner => exact ih position inner
    | _ => exact le_rfl
  | binary state scores left right leftIh rightIh =>
    cases d with
    | binary s l r => exact mul_nonneg (leftIh position l) (rightIh _ r)
    | _ => exact le_rfl

theorem weight_nonneg (nonneg : model.Nonneg) (member : d ∈ tree.derivations) :
    0 ≤ tree.weight model 0 d := by
  rw [weight_eq_prod member]
  refine mul_nonneg (emitted_nonneg nonneg 0 tree d) (List.prod_nonneg fun score listed => ?_)
  obtain ⟨use, -, rfl⟩ := List.mem_map.mp listed
  exact nonneg.rules use

/-- A derivation has weight if and only if all its words and all rules that it uses have scores. -/
theorem weight_pos_iff (nonneg : model.Nonneg) (member : d ∈ tree.derivations) :
    0 < tree.weight model 0 d ↔ 0 < tree.emitted model.lexicon 0 d ∧
      ∀ use ∈ tree.uses d, 0 < model.grammar.rules.score use := by
  have words := emitted_nonneg nonneg 0 tree d
  rw [weight_eq_prod member]
  constructor
  · intro positive
    obtain ⟨emits, product⟩ := mul_ne_zero_iff.mp positive.ne'
    refine ⟨words.lt_of_ne' emits, fun use used => (nonneg.rules use).lt_of_ne' fun zero => ?_⟩
    exact product (List.prod_eq_zero (List.mem_map.mpr ⟨use, used, zero⟩))
  · rintro ⟨emits, scores⟩
    refine mul_pos emits (List.prod_pos fun score listed => ?_)
    obtain ⟨use, used, rfl⟩ := List.mem_map.mp listed
    exact scores use used

theorem totalWeight_pos (nonneg : model.Nonneg) (member : d ∈ tree.derivations)
    (positive : 0 < tree.weight model 0 d) : 0 < tree.totalWeight model :=
  sum_pos' (fun _ member => weight_nonneg nonneg member) ⟨d, member, positive⟩

theorem exists_weight_pos (positive : 0 < tree.totalWeight model) :
    ∃ d ∈ tree.derivations, 0 < tree.weight model 0 d := by
  have exceeds :
      ∑ d ∈ tree.derivations, (0 : α) < ∑ d ∈ tree.derivations, tree.weight model 0 d := by
    rwa [sum_const_zero]
  exact exists_lt_of_sum_lt exceeds

theorem expectedUse_eq_sum (use : RuleUse) :
    tree.expectedUse model use = (∑ d ∈ tree.derivations,
      tree.weight model 0 d * (tree.uses d).count use) / tree.totalWeight model :=
  expectedUses_eq_sum _ _ _ _

theorem expectedUse_nonneg (nonneg : model.Nonneg) (use : RuleUse) :
    0 ≤ tree.expectedUse model use := by
  rw [expectedUse_eq_sum]
  refine div_nonneg (sum_nonneg fun d member => ?_) (sum_nonneg fun d member => ?_)
  · exact mul_nonneg (weight_nonneg nonneg member) (Nat.cast_nonneg _)
  · exact weight_nonneg nonneg member

theorem expectedUse_pos (nonneg : model.Nonneg) (member : d ∈ tree.derivations)
    (positive : 0 < tree.weight model 0 d) {use : RuleUse} (used : use ∈ tree.uses d) :
    0 < tree.expectedUse model use := by
  rw [expectedUse_eq_sum]
  refine div_pos (sum_pos' (fun d member => ?_) ⟨d, member, ?_⟩)
    (totalWeight_pos nonneg member positive)
  · exact mul_nonneg (weight_nonneg nonneg member) (Nat.cast_nonneg _)
  · exact mul_pos positive (Nat.cast_pos.mpr (List.count_pos_iff.mpr used))

theorem exists_of_expectedUse_pos (nonneg : model.Nonneg) {use : RuleUse}
    (expected : 0 < tree.expectedUse model use) :
    ∃ d ∈ tree.derivations, 0 < tree.weight model 0 d ∧ use ∈ tree.uses d := by
  by_contra none
  push Not at none
  refine expected.ne' ?_
  rw [expectedUse_eq_sum, sum_eq_zero, zero_div]
  intro d member
  rcases (weight_nonneg nonneg member).eq_or_lt with zero | positive
  · rw [← zero, zero_mul]
  · rw [List.count_eq_zero.mpr (none d member positive), Nat.cast_zero, mul_zero]

/-- What is expected is a use of a rule of the grammar. -/
theorem mem_uses_of_expectedUse_pos (nonneg : model.Nonneg)
    (rules : model.grammar.rules.Fits model.substates) (fits : tree.Fits model.substates)
    {use : RuleUse} (expected : 0 < tree.expectedUse model use) :
    use ∈ model.grammar.rules.uses := by
  obtain ⟨d, member, positive, used⟩ := exists_of_expectedUse_pos nonneg expected
  have score := ((weight_pos_iff nonneg member).mp positive).2 use used
  refine rules.mem_uses.mpr ⟨?_, fits.dimensions_of_mem_uses member used⟩
  by_contra absent
  have missing : model.grammar.rules.find? use.1 = none := by
    rw [Option.eq_none_iff_forall_ne_some]
    exact fun block found => absent ⟨block, found⟩
  simp [RuleTable.score, RuleTable.cell_of_absent missing] at score

/-- Between models that share their words, a derivation gains what the rules that it uses gain. -/
theorem log_weight_sub (increasing : StrictMono real) (shared : next.lexicon = model.lexicon)
    (member : d ∈ tree.derivations) (emits : 0 < tree.emitted model.lexicon 0 d)
    (old : ∀ use ∈ tree.uses d, 0 < model.grammar.rules.score use)
    (new : ∀ use ∈ tree.uses d, 0 < next.grammar.rules.score use) :
    log (real (tree.weight next 0 d)) - log (real (tree.weight model 0 d)) =
      ((tree.uses d).map (model.gain real next)).sum := by
  have logged {rules : RuleTable α} (scores : ∀ use ∈ tree.uses d, 0 < rules.score use) :
      log (real (tree.emitted model.lexicon 0 d * ((tree.uses d).map rules.score).prod)) =
        log (real (tree.emitted model.lexicon 0 d))
          + ((tree.uses d).map fun use => log (real (rules.score use))).sum := by
    have product : 0 < ((tree.uses d).map rules.score).prod := List.prod_pos fun score listed => by
      obtain ⟨use, used, rfl⟩ := List.mem_map.mp listed
      exact scores use used
    rw [map_mul, log_mul (real_pos increasing emits).ne' (real_pos increasing product).ne',
      map_list_prod, log_list_prod]
    · simp only [List.map_map, Function.comp_def]
    · intro x listed
      simp only [List.map_map, List.mem_map] at listed
      obtain ⟨use, used, rfl⟩ := listed
      exact (real_pos increasing (scores use used)).ne'
  rw [weight_eq_prod member, weight_eq_prod member, shared, logged old, logged new,
    add_sub_add_left_eq_sub, sub_eq_iff_eq_add, ← List.sum_map_add]
  simp only [Model.gain, sub_add_cancel]

/-- What a tree gains is at least what its expected uses gain. -/
theorem sum_expectedUse_mul_gain_le (increasing : StrictMono real) (nonneg : model.Nonneg)
    (nextNonneg : next.Nonneg) (shared : next.lexicon = model.lexicon) {uses : Finset RuleUse}
    (kept : ∀ use, 0 < tree.expectedUse model use →
      use ∈ uses ∧ 0 < next.grammar.rules.score use)
    (positive : 0 < tree.totalWeight model) :
    0 < tree.totalWeight next ∧
      ∑ use ∈ uses, real (tree.expectedUse model use) * model.gain real next use ≤
        log (real (tree.totalWeight next)) - log (real (tree.totalWeight model)) := by
  have used {d : Derivation} (member : d ∈ tree.derivations) (heavy : 0 < tree.weight model 0 d)
      (use : RuleUse) (here : use ∈ tree.uses d) :=
    kept use (expectedUse_pos nonneg member heavy here)
  have heavier {d : Derivation} (member : d ∈ tree.derivations)
      (heavy : 0 < tree.weight model 0 d) : 0 < tree.weight next 0 d := by
    obtain ⟨emits, -⟩ := (weight_pos_iff nonneg member).mp heavy
    exact (weight_pos_iff nextNonneg member).mpr
      ⟨shared ▸ emits, fun use here => (used member heavy use here).2⟩
  obtain ⟨first, member, heavy⟩ := exists_weight_pos positive
  refine ⟨totalWeight_pos nextNonneg member (heavier member heavy), ?_⟩
  have each (d : Derivation) (member : d ∈ tree.derivations) :
      real (tree.weight model 0 d)
          * (log (real (tree.weight next 0 d)) - log (real (tree.weight model 0 d))) =
        real (tree.weight model 0 d)
          * ∑ use ∈ uses, ((tree.uses d).count use : ℝ) * model.gain real next use := by
    rcases (weight_nonneg nonneg member).eq_or_lt with none | heavy
    · rw [← none, map_zero, zero_mul, zero_mul]
    · obtain ⟨emits, scores⟩ := (weight_pos_iff nonneg member).mp heavy
      rw [log_weight_sub increasing shared member emits scores
          fun use here => (used member heavy use here).2,
        sum_map_eq_sum_count fun use here => (used member heavy use here).1]
  have mean (use : RuleUse) : real (tree.expectedUse model use) * real (tree.totalWeight model) =
      ∑ d ∈ tree.derivations, real (tree.weight model 0 d) * ((tree.uses d).count use : ℝ) := by
    rw [← map_mul, expectedUse_eq_sum, div_mul_cancel₀ _ positive.ne', map_sum]
    simp only [map_mul, map_natCast]
  have bound := sum_mul_log_sub_le
    (fun d member => map_nonneg real (weight_nonneg nonneg member))
    (fun d member => map_nonneg real (weight_nonneg nextNonneg member))
    fun d member heavy => real_pos increasing (heavier member (increasing.lt_iff_lt.mp (by
      simpa using heavy)))
  rw [sum_congr rfl each, ← map_sum, ← map_sum] at bound
  have total : (∑ use ∈ uses, real (tree.expectedUse model use) * model.gain real next use)
      * real (tree.totalWeight model) = ∑ d ∈ tree.derivations, real (tree.weight model 0 d)
        * ∑ use ∈ uses, ((tree.uses d).count use : ℝ) * model.gain real next use := by
    simp only [sum_mul, mul_sum, mul_right_comm _ _ (real (tree.totalWeight model)), mean]
    rw [sum_comm]
    simp only [mul_assoc]
  have massive := real_pos increasing positive
  rw [← total, mul_comm] at bound
  exact le_of_mul_le_mul_left bound massive

end LatentTree

end LatentGrammar
