import LatentGrammar.Proofs.Agreement
import LatentGrammar.Proofs.Counting.Totals

namespace LatentGrammar

variable {α : Type}

namespace Forest

variable {β β' : Type}

/-- What a sweep comes to, if it is not cut short. -/
def Sweep.conclusion (sweep : Sweep α β) : Except Fault β :=
  match sweep.fault with
  | none => .ok sweep.result
  | some fault => .error fault

theorem sweep_cons_conclusion
    (step : Nat → LatentTree α → β → Except Fault (LatentTree α × β)) (index : Nat)
    (tree : LatentTree α) (rest : List (LatentTree α)) (start : β) :
    (sweep step index (tree :: rest) start).conclusion = (do
      let (_, result) ← step index tree start
      (sweep step (index + 1) rest result).conclusion) := by
  rw [sweep]
  cases step index tree start <;> rfl

theorem sweep_agree {relation : β → β' → Prop}
    {step : Nat → LatentTree α → β → Except Fault (LatentTree α × β)}
    {step' : Nat → LatentTree α → β' → Except Fault (LatentTree α × β')}
    {trees : List (LatentTree α)}
    (each : ∀ index, ∀ tree ∈ trees, ∀ a b, relation a b →
      Agree (fun next next' => relation next.2 next'.2) (step index tree a) (step' index tree b))
    {start : β} {start' : β'} (initial : relation start start') (index : Nat) :
    Agree relation (sweep step index trees start).conclusion
      (sweep step' index trees start').conclusion := by
  induction trees generalizing index start start' with
  | nil => exact .ok initial
  | cons tree rest ih =>
    obtain ⟨here, later⟩ := forall_and.mp fun index => List.forall_mem_cons.mp (each index)
    rw [sweep_cons_conclusion, sweep_cons_conclusion]
    exact (here index start start' initial).bind fun _ _ related => ih later related (index + 1)

end Forest

namespace Training

theorem Pass.ofSweep_snd {β : Type} (forest : Forest α) (sweep : Forest.Sweep α β) :
    (Pass.ofSweep forest sweep).2 = sweep.conclusion := rfl

variable [Scalar α] {model : Model α} {rare : α} {size index : Nat} {tree scored : LatentTree α}
  {trees : List (LatentTree α)} {expectation next : Expectation α}

/-- Whether the inside scores of a tree give it a likelihood. -/
def isLikely (tree : LatentTree α) : Bool :=
  match tree.mass with
  | .ok mass => LatentTree.hasLikelihood mass
  | .error _ => false

/-- The trees that have a likelihood, each with its number; the numbers start from `first` and count
the other trees as well. -/
def likelyTrees (first : Nat) (scored : List (LatentTree α)) : List (LatentTree α × Nat) :=
  (scored.zipIdx first).filter (isLikely ·.1)

/-- Counts the rules of trees one after the other. -/
def tallyRules (model : Model α) (likely : List (LatentTree α × Nat)) (counts : RuleCounts α) :
    Except Fault (RuleCounts α) :=
  likely.foldlM (fun counts entry => counts.countScored model.grammar entry.1) counts

/-- Counts the words of trees one after the other; those of the second half of all `size` trees
count towards the unseen statistics. -/
def tallyEmissions (rare : α) (size : Nat) (likely : List (LatentTree α × Nat))
    (counts : EmissionCounts α) : Except Fault (EmissionCounts α) :=
  likely.foldlM
    (fun counts entry => counts.countScored ⟨inLaterHalf α entry.2 size, rare⟩ entry.1) counts

theorem likelyTrees_cons (first : Nat) (tree : LatentTree α) (rest : List (LatentTree α)) :
    likelyTrees first (tree :: rest) = likelyTrees first [tree] ++ likelyTrees (first + 1) rest := by
  rw [likelyTrees, likelyTrees, likelyTrees, ← List.filter_append]
  rfl

theorem tallyRules_append (first second : List (LatentTree α × Nat)) :
    tallyRules model (first ++ second) =
      fun counts => tallyRules model first counts >>= tallyRules model second := by
  funext counts
  exact List.foldlM_append

theorem tallyRules_single (tree : LatentTree α) (number : Nat) :
    tallyRules model [(tree, number)] = fun counts => counts.countScored model.grammar tree := by
  funext counts
  rw [tallyRules, List.foldlM_cons]
  exact bind_pure _

theorem mapM_tallyRules_nil (counts : Option (RuleCounts α)) :
    counts.mapM (tallyRules model []) = .ok counts := by
  cases counts <;> rfl

theorem bind_mapM_option {β : Type} {one two three : Option β} {f g : β → Except Fault β}
    (first : one.mapM f = .ok two) (second : two.mapM g = .ok three) :
    one.mapM (fun value => f value >>= g) = .ok three := by
  cases one with
  | none =>
    obtain rfl := Except.ok.inj first
    exact second
  | some value =>
    obtain ⟨counted, done, kept⟩ := bind_eq_ok_iff.mp first
    obtain rfl := Except.ok.inj kept
    simp only [Option.mapM_some, done, ok_bind]
    exact second

/-- Trees that a pass has counted: those with a likelihood are in the counts, and all of them in the
outcome, which is that of an evaluation of the same trees. -/
structure Counted (model : Model α) (rare : α) (size index : Nat) (trees : List (LatentTree α))
    (expectation next : Expectation α) (scored : List (LatentTree α)) : Prop where
  scored_eq : trees.mapM (·.computeBoth model) = .ok scored
  evaluated : (Forest.sweep (fun _ => evaluateTree model) index trees
    expectation.outcome).conclusion = .ok next.outcome
  total : next.outcome.scored + next.outcome.unparsable =
    expectation.outcome.scored + expectation.outcome.unparsable + trees.length
  rules : expectation.rules.mapM (tallyRules model (likelyTrees index scored)) = .ok next.rules
  emissions : tallyEmissions rare size (likelyTrees index scored) expectation.emissions =
    .ok next.emissions

theorem computeBoth_inside {tree scored : LatentTree α} (done : tree.computeBoth model = .ok scored) :
    ∃ inner, tree.computeInside model = .ok inner ∧ scored.inside = inner.inside := by
  obtain ⟨inner, computed, filled⟩ := bind_eq_ok_iff.mp done
  exact ⟨inner, computed, (LatentTree.fillOutside_top filled).1⟩

theorem counted_expectTree
    (done : expectTree model rare size index tree expectation = .ok (scored, next)) :
    Counted model rare size index [tree] expectation next [scored] := by
  obtain ⟨outer, both, done⟩ := bind_eq_ok_iff.mp done
  obtain ⟨mass, massed, done⟩ := bind_eq_ok_iff.mp done
  obtain ⟨inner, computed, inside⟩ := computeBoth_inside both
  have innerMass : inner.mass = .ok mass := by
    rw [← massed, LatentTree.mass, LatentTree.mass, inside]
  -- Without a likelihood neither pass does more than to take note of the tree.
  split at done
  · rename_i likely
    obtain ⟨emissions, counted, done⟩ := bind_eq_ok_iff.mp done
    obtain ⟨rules, ruled, done⟩ := bind_eq_ok_iff.mp done
    obtain ⟨logLikelihood, logged, done⟩ := bind_eq_ok_iff.mp done
    obtain ⟨rfl, rfl⟩ := Prod.mk.inj (Except.ok.inj done)
    have kept : likelyTrees index [outer] = [(outer, index)] := by
      simp [likelyTrees, isLikely, massed, likely]
    have innerLogged : inner.logLikelihood = .ok logLikelihood := by
      rw [← logged, LatentTree.logLikelihood, LatentTree.logLikelihood, innerMass, massed, inside]
    refine ⟨by rw [List.mapM_cons, both]; rfl, ?_, ?_, ?_, ?_⟩
    · rw [Forest.sweep_cons_conclusion, evaluateTree, computed, ok_bind, innerMass, ok_bind,
        if_pos likely, innerLogged]
      rfl
    · simp only [Outcome.addScored, List.length_singleton]
      omega
    · rw [kept, tallyRules_single]
      exact ruled
    · rw [kept, tallyEmissions, List.foldlM_cons, counted]
      rfl
  · rename_i unlikely
    obtain ⟨rfl, rfl⟩ := Prod.mk.inj (Except.ok.inj done)
    have kept : likelyTrees index [outer] = [] := by
      simp [likelyTrees, isLikely, massed, unlikely]
    refine ⟨by rw [List.mapM_cons, both]; rfl, ?_, ?_, ?_, ?_⟩
    · rw [Forest.sweep_cons_conclusion, evaluateTree, computed, ok_bind, innerMass, ok_bind,
        if_neg unlikely]
      rfl
    · simp only [Outcome.addUnparsable, List.length_singleton]
      omega
    · rw [kept]
      exact mapM_tallyRules_nil expectation.rules
    · rw [kept]
      rfl

theorem counted_expectTrees {final : Expectation α}
    (done : (Forest.sweep (expectTree model rare size) index trees expectation).conclusion =
      .ok final) :
    ∃ scored, Counted model rare size index trees expectation final scored := by
  induction trees generalizing index expectation with
  | nil =>
    obtain rfl := Except.ok.inj done
    exact ⟨[], rfl, rfl, rfl, mapM_tallyRules_nil expectation.rules, rfl⟩
  | cons tree rest ih =>
    rw [Forest.sweep_cons_conclusion] at done
    obtain ⟨⟨scored, next⟩, stepped, done⟩ := bind_eq_ok_iff.mp done
    have here := counted_expectTree stepped
    obtain ⟨later, below⟩ := ih done
    refine ⟨scored :: later, ?_, ?_, ?_, ?_, ?_⟩
    · have first := here.scored_eq
      rw [List.mapM_cons] at first ⊢
      obtain ⟨only, computed, same⟩ := bind_eq_ok_iff.mp first
      obtain ⟨rfl, -⟩ := List.cons.inj (Except.ok.inj same)
      rw [computed, below.scored_eq]
      rfl
    · have first := here.evaluated
      rw [Forest.sweep_cons_conclusion] at first ⊢
      obtain ⟨⟨inner, outcome⟩, evaluated, same⟩ := bind_eq_ok_iff.mp first
      obtain rfl : outcome = next.outcome := Except.ok.inj same
      rw [evaluated]
      exact below.evaluated
    · rw [below.total, here.total, List.length_cons, List.length_cons, List.length_nil]
      omega
    · rw [likelyTrees_cons, tallyRules_append]
      exact bind_mapM_option here.rules below.rules
    · rw [likelyTrees_cons, tallyEmissions, List.foldlM_append]
      exact bind_eq_ok_iff.mpr ⟨next.emissions, here.emissions, below.emissions⟩

/-- Nothing else changes when rules are not counted. -/
theorem expectTree_lexicon
    (done : expectTree model rare size index tree expectation = .ok (scored, next)) :
    expectTree model rare size index tree { expectation with rules := none } =
      .ok (scored, { next with rules := none }) := by
  obtain ⟨outer, both, done⟩ := bind_eq_ok_iff.mp done
  obtain ⟨mass, massed, done⟩ := bind_eq_ok_iff.mp done
  rw [expectTree, both, ok_bind, massed, ok_bind]
  split at done
  · rename_i likely
    obtain ⟨emissions, counted, done⟩ := bind_eq_ok_iff.mp done
    obtain ⟨rules, -, done⟩ := bind_eq_ok_iff.mp done
    obtain ⟨logLikelihood, logged, done⟩ := bind_eq_ok_iff.mp done
    obtain ⟨rfl, rfl⟩ := Prod.mk.inj (Except.ok.inj done)
    rw [if_pos likely]
    simp only [counted, ok_bind, Option.mapM_none, pure_bind, logged]
    rfl
  · rename_i unlikely
    obtain ⟨rfl, rfl⟩ := Prod.mk.inj (Except.ok.inj done)
    rw [if_neg unlikely]
    rfl

theorem expectTrees_lexicon {final : Expectation α}
    (done : (Forest.sweep (expectTree model rare size) index trees expectation).conclusion =
      .ok final) :
    (Forest.sweep (expectTree model rare size) index trees
      { expectation with rules := none }).conclusion = .ok { final with rules := none } := by
  induction trees generalizing index expectation with
  | nil =>
    obtain rfl := Except.ok.inj done
    rfl
  | cons tree rest ih =>
    rw [Forest.sweep_cons_conclusion] at done ⊢
    obtain ⟨⟨scored, next⟩, stepped, done⟩ := bind_eq_ok_iff.mp done
    rw [expectTree_lexicon stepped]
    exact ih done

/-- The pass over all trees, and then the counts of rare words. -/
theorem expect_conclusion (model : Model α) (rare : α) (forest : Forest α)
    (rules : Option (RuleCounts α)) (emissions : EmissionCounts α) :
    (expect model rare forest rules emissions).conclusion = (do
      let expectation ← (expectTrees model rare forest rules emissions).conclusion
      return { expectation with emissions := ← expectation.emissions.tieRare rare }) := by
  unfold expect Forest.Sweep.conclusion
  generalize expectTrees model rare forest rules emissions = sweep
  cases broken : sweep.fault with
  | some fault => simp only [broken]; rfl
  | none =>
    cases tied : sweep.result.emissions.tieRare rare <;> simp [broken, tied]

/-- Whatever becomes of the grammar, the lexicon and the outcome are those of the counts. -/
theorem maximize_lexicon {outcome : Outcome α} {estimated : Model α}
    (done : maximize model expectation = .ok (estimated, outcome)) :
    estimated.lexicon = expectation.emissions.estimate ∧ outcome = expectation.outcome := by
  unfold maximize at done
  cases known : expectation.rules with
  | none =>
    rw [known] at done
    obtain ⟨rfl, rfl⟩ := Prod.mk.inj (Except.ok.inj done)
    exact ⟨rfl, rfl⟩
  | some rules =>
    rw [known] at done
    obtain ⟨grammar, -, done⟩ := bind_eq_ok_iff.mp done
    obtain ⟨rfl, rfl⟩ := Prod.mk.inj (Except.ok.inj done)
    exact ⟨rfl, rfl⟩

/-- A lexicon that is re-estimated alone is that of the next model. -/
theorem nextLexicon_of_nextModel {forest : Forest α} {next : Model α} {outcome : Outcome α}
    (done : (nextModel model rare forest).2 = .ok (next, outcome)) :
    (nextLexicon model rare forest).2 = .ok (⟨model.grammar, next.lexicon⟩, outcome) := by
  obtain ⟨expectation, expected, maximized⟩ := bind_eq_ok_iff.mp done
  obtain ⟨lexicon, rfl⟩ := maximize_lexicon maximized
  suffices alone : (expectAfresh model rare forest false).2 =
      .ok { expectation with rules := none } by
    rw [nextLexicon, lexicon]
    simp only [alone]
    rfl
  change (expectAfresh model rare forest true).2 = _ at expected
  unfold expectAfresh at expected ⊢
  cases started : countsAfter model true with
  | error fault => simp [started] at expected
  | ok start =>
    obtain ⟨rules, emissions⟩ := start
    obtain ⟨_, -, begun⟩ := bind_eq_ok_iff.mp started
    obtain ⟨fresh, after, same⟩ := bind_eq_ok_iff.mp begun
    obtain rfl : fresh = emissions := (Prod.mk.inj (Except.ok.inj same)).2
    have lexical : countsAfter model false = .ok (none, fresh) := by
      simp only [countsAfter, after]
      rfl
    rw [started] at expected
    rw [lexical]
    dsimp only at expected ⊢
    rw [Pass.ofSweep_snd, expect_conclusion] at expected ⊢
    obtain ⟨counted, passed, expected⟩ := bind_eq_ok_iff.mp expected
    obtain ⟨tied, ties, expected⟩ := bind_eq_ok_iff.mp expected
    obtain rfl := Except.ok.inj expected
    have alone := expectTrees_lexicon passed
    rw [expectTrees]
    simp only [alone, ok_bind, ties]
    rfl

/-- Counts with a table for whatever the model may ask to be counted. -/
structure Accumulates (model : Model α) (rules : Option (RuleCounts α))
    (emissions : EmissionCounts α) : Prop where
  rules : ∀ counts, rules = some counts → counts.Covers model.grammar model.substates
  emissions : emissions.InFrame model.lexicon.toLexiconFrame

omit [Scalar α] in
/-- A tree that passes the check has vectors for the substates that it was checked for, unless an
empty vector stands for a category that is not there. -/
theorem fits_of_checkSubstates {old substates : List Nat} (fits : tree.Fits old)
    (known : ∀ node ∈ tree.subtrees, node.substates = 0 → node.state < substates.length)
    (checked : tree.checkSubstates substates = .ok ()) : tree.Fits substates := by
  intro node member
  have scores := fits node member
  have same : node.substates = (substates[node.state]?).getD 0 := by
    have here := of_forM_eq_ok checked node member
    by_contra different
    simp [different] at here
  refine ⟨?_, scores.outside, scores.room⟩
  cases found : substates[node.state]? with
  | none =>
    rw [found] at same
    exact absurd (known node member same) (Nat.not_lt.mpr (List.getElem?_eq_none_iff.mp found))
  | some size =>
    rw [found] at same
    exact congrArg some same.symm

/-- A rule is counted in the block that is there for it. -/
theorem countScoredTop_covers {allowed : Fault → Prop} {grammar : Grammar α} {substates : List Nat}
    (rules : grammar.rules.Fits substates) {counts : RuleCounts α}
    (covers : counts.Covers grammar substates) (fits : tree.Fits substates) (mass : α)
    (scale : Int) :
    Delivers allowed (·.Covers grammar substates)
      (RuleCounts.countScoredTop grammar mass scale counts tree) := by
  have known {key : Production} {rule : RuleBlock α} (found : grammar.rule? key = some rule) :
      (grammar.rules.find? key).isSome = true := Option.isSome_iff_exists.mpr ⟨rule, found⟩
  cases tree with
  | preterminal => exact covers
  | unary state scores child =>
    simp only [RuleCounts.countScoredTop, LatentTree.rule?]
    cases found : grammar.rule? (.unary state child.state) with
    | none => exact covers
    | some rule =>
      obtain ⟨top, below⟩ := LatentTree.fits_unary.mp fits
      have sized := (rules.find? found).unary top.inside below.substates_eq
      obtain ⟨block, present⟩ := covers.block_of found
      simp only [RuleCounts.block, present, ok_bind]
      have blockSized := (covers.fits.find? present).unary top.inside below.substates_eq
      refine (RuleBlock.countUnary_delivers blockSized sized top.outside).bind
        fun counted countedSized => covers.insert (known found) ?_
      exact countedSized.fits fits.dimensions_unary
  | binary state scores left right =>
    simp only [RuleCounts.countScoredTop, LatentTree.rule?]
    cases found : grammar.rule? (.binary state left.state right.state) with
    | none => exact covers
    | some rule =>
      obtain ⟨top, leftBelow, rightBelow⟩ := LatentTree.fits_binary.mp fits
      have sized :=
        (rules.find? found).binary top.inside leftBelow.substates_eq rightBelow.substates_eq
      obtain ⟨block, present⟩ := covers.block_of found
      simp only [RuleCounts.block, present, ok_bind]
      have blockSized := (covers.fits.find? present).binary top.inside leftBelow.substates_eq
        rightBelow.substates_eq
      refine (RuleBlock.countBinary_delivers blockSized sized top.outside).bind
        fun counted countedSized => covers.insert (known found) ?_
      exact countedSized.fits fits.dimensions_binary

theorem countScored_covers {allowed : Fault → Prop} {grammar : Grammar α} {substates : List Nat}
    (rules : grammar.rules.Fits substates) {counts : RuleCounts α}
    (covers : counts.Covers grammar substates) (fits : tree.Fits substates)
    (nonempty : 0 < tree.substates) :
    Delivers allowed (·.Covers grammar substates) (counts.countScored grammar tree) := by
  apply (LatentTree.delivers_mass nonempty).bind
  intro mass _
  apply Delivers.ite
  · intro _
    exact covers
  intro _
  exact Delivers.foldlM covers fun counts node member covers =>
    countScoredTop_covers rules covers (fits.of_mem member) mass _

/-- A tree with a likelihood is counted without fail. -/
theorem counts_delivers (rules : model.grammar.rules.Fits model.substates)
    (same : model.lexicon.substates = model.substates)
    (accumulates : Accumulates model expectation.rules expectation.emissions)
    (fits : scored.Fits model.substates) (nonempty : 0 < scored.substates)
    (policy : UnseenPolicy α) :
    ∃ emissions counts, expectation.emissions.countScored policy scored = .ok emissions ∧
      expectation.rules.mapM (·.countScored model.grammar scored) = .ok counts ∧
      Accumulates model counts emissions := by
  have lexical : scored.Fits model.lexicon.substates := same ▸ fits
  obtain ⟨emissions, counted, inFrame⟩ : ∃ emissions,
      expectation.emissions.countScored policy scored = .ok emissions ∧ emissions.InFrame _ :=
    delivers_never_iff.mp
      (EmissionCounts.countScored_delivers accumulates.emissions lexical nonempty)
  obtain ⟨counts, ruled, covers⟩ := delivers_never_iff.mp (Delivers.mapM_option fun counts known =>
    countScored_covers rules (accumulates.rules counts known) fits nonempty)
  exact ⟨emissions, counts, counted, ruled, covers, inFrame⟩

/-- Counting a tree fails where and as its evaluation fails. -/
theorem expectTree_agree (rules : model.grammar.rules.Fits model.substates)
    (same : model.lexicon.substates = model.substates) {old : List Nat} (fits : tree.Fits old)
    (known : ∀ node ∈ tree.subtrees, node.substates = 0 → node.state < model.substates.length)
    (accumulates : Accumulates model expectation.rules expectation.emissions) :
    Agree (fun next next' : LatentTree α × _ => next.2.outcome = next'.2 ∧
        Accumulates model next.2.rules next.2.emissions)
      (expectTree model rare size index tree expectation)
      (evaluateTree model tree expectation.outcome) := by
  unfold expectTree evaluateTree LatentTree.computeBoth
  rw [bind_assoc]
  cases computed : tree.computeInside model with
  | error fault => exact .error fault
  | ok inner =>
    obtain ⟨_, checked, -⟩ := bind_eq_ok_iff.mp computed
    have treeFits := fits_of_checkSubstates fits known checked
    have alike : inner.Alike tree := (LatentTree.computeInside_delivers rules
      model.lexicon.answers_any treeFits (same ▸ treeFits)).of_ok computed
    have innerFits := alike.fits treeFits
    obtain ⟨outer, filled, outerAlike⟩ := delivers_never_iff.mp
      (LatentTree.fillOutside_delivers rules innerFits (LatentTree.hasSize_topOutside innerFits))
    have inside := (LatentTree.fillOutside_top filled).1
    have massed : outer.mass = inner.mass := by rw [LatentTree.mass, LatentTree.mass, inside]
    have logged : outer.logLikelihood = inner.logLikelihood := by
      rw [LatentTree.logLikelihood, LatentTree.logLikelihood, massed, inside]
    simp only [ok_bind, filled, massed, logged]
    cases top : inner.mass with
    | error fault => exact .error fault
    | ok mass =>
      simp only [ok_bind]
      have nonempty : 0 < outer.substates := by
        rw [LatentTree.substates, inside]
        exact (List.getElem?_eq_some_iff.mp (fetch_eq_ok_iff.mp top)).1
      split
      · obtain ⟨emissions, counts, counted, ruled, next⟩ := counts_delivers rules same accumulates
          (outerAlike.fits innerFits) nonempty ⟨inLaterHalf α index size, rare⟩
        simp only [counted, ruled, ok_bind]
        exact Agree.bind_same fun logLikelihood => .ok ⟨rfl, next⟩
      · exact .ok ⟨rfl, accumulates⟩

/-- Counting fails where and as evaluation fails, and comes to the same outcome otherwise. -/
theorem expect_agree {forest : Forest α} {rules : Option (RuleCounts α)}
    {emissions : EmissionCounts α} (fitting : model.grammar.rules.Fits model.substates)
    (same : model.lexicon.substates = model.substates)
    (accumulates : Accumulates model rules emissions) (fits : forest.Fits forest.substates)
    (known : ∀ tree ∈ forest.trees, ∀ node ∈ tree.subtrees, node.substates = 0 →
      node.state < model.substates.length) :
    Agree (fun (expectation : Expectation α) outcome => expectation.outcome = outcome)
      (expect model rare forest rules emissions).conclusion
      (Forest.sweep (fun _ => evaluateTree model) 0 forest.trees .start).conclusion := by
  have passes : Agree (fun (expectation : Expectation α) outcome => expectation.outcome = outcome ∧
        Accumulates model expectation.rules expectation.emissions)
      (expectTrees model rare forest rules emissions).conclusion
      (Forest.sweep (fun _ => evaluateTree model) 0 forest.trees .start).conclusion := by
    refine Forest.sweep_agree (fun index tree member expectation outcome related => ?_)
      ⟨rfl, accumulates⟩ 0
    obtain ⟨rfl, accumulates⟩ := related
    exact expectTree_agree fitting same (fits.trees tree member) (known tree member) accumulates
  rw [expect_conclusion, ← bind_pure (Forest.Sweep.conclusion (Forest.sweep _ _ _ _))]
  refine passes.bind fun expectation outcome ⟨equal, accumulates⟩ => ?_
  obtain ⟨tied, ties, -⟩ := delivers_never_iff.mp
    (EmissionCounts.tieRare_delivers accumulates.emissions rare)
  rw [ties]
  exact .ok equal

/-- Counting and evaluation. A pass that counts comes to the outcome of an evaluation, in which every
tree is either scored or not; its counts are those of the trees with a likelihood, one after the
other, with the numbers that they have among all trees, and then those of rare words are tied. The
lexicon of the next model does not depend on whether rules are counted, too. And where rules have a
score for every combination of substates, counting fails where and as evaluation fails. -/
theorem expect_evaluates (model : Model α) (rare : α) (forest : Forest α)
    (rules : Option (RuleCounts α)) (emissions : EmissionCounts α) :
    (∀ expectation,
      (Pass.ofSweep forest (expect model rare forest rules emissions)).2 = .ok expectation →
        (evaluate model forest).2 = .ok expectation.outcome ∧
        expectation.outcome.scored + expectation.outcome.unparsable = forest.size ∧
        ∃ scored, forest.trees.mapM (·.computeBoth model) = .ok scored ∧
          rules.mapM (tallyRules model (likelyTrees 0 scored)) = .ok expectation.rules ∧
          (tallyEmissions rare forest.size (likelyTrees 0 scored) emissions >>=
            EmissionCounts.tieRare rare) = .ok expectation.emissions) ∧
    (∀ next outcome, (nextModel model rare forest).2 = .ok (next, outcome) →
      (nextLexicon model rare forest).2 = .ok (⟨model.grammar, next.lexicon⟩, outcome)) ∧
    (model.grammar.rules.Fits model.substates → model.lexicon.substates = model.substates →
      Accumulates model rules emissions → forest.Fits forest.substates →
      (∀ tree ∈ forest.trees, ∀ node ∈ tree.subtrees, node.substates = 0 →
        node.state < model.substates.length) →
        Agree (fun expectation outcome => expectation.outcome = outcome)
          (Pass.ofSweep forest (expect model rare forest rules emissions)).2
          (evaluate model forest).2) := by
  refine ⟨fun expectation done => ?_, fun next outcome => nextLexicon_of_nextModel, expect_agree⟩
  rw [Pass.ofSweep_snd, expect_conclusion] at done
  obtain ⟨final, passed, done⟩ := bind_eq_ok_iff.mp done
  obtain ⟨tied, ties, done⟩ := bind_eq_ok_iff.mp done
  obtain rfl := Except.ok.inj done
  obtain ⟨scored, counted⟩ := counted_expectTrees passed
  refine ⟨counted.evaluated, ?_, scored, counted.scored_eq, counted.rules, ?_⟩
  · have total := counted.total
    simpa [Outcome.start, Forest.size] using total
  · exact bind_eq_ok_iff.mpr ⟨final.emissions, counted.emissions, ties⟩

theorem sampleForest_evaluated :
    ∃ expectation : Expectation Rat, ∃ scored,
      (expectAfresh sampleModel 2 sampleForest true).2 = .ok expectation ∧
        (evaluate sampleModel sampleForest).2 = .ok expectation.outcome ∧
        sampleForest.trees.mapM (·.computeBoth sampleModel) = .ok scored ∧
        expectation.outcome.scored + expectation.outcome.unparsable = 1 := by
  obtain ⟨⟨rules, emissions⟩, afresh⟩ : ∃ counts, countsAfter sampleModel true = .ok counts :=
    ⟨_, rfl⟩
  obtain ⟨tallied, -, agree⟩ := expect_evaluates sampleModel 2 sampleForest rules emissions
  have accumulates : Accumulates sampleModel rules emissions := by
    obtain ⟨whole, -⟩ := countsAfter_zero sampleModel_rules_fit rfl afresh
    obtain ⟨counts, known, covers⟩ := whole.rules
    exact ⟨fun _ found => Option.some.inj (known.symm.trans found) ▸ covers, whole.emissions⟩
  have fits : sampleForest.Fits sampleForest.substates :=
    ⟨rfl, fun tree member => List.mem_singleton.mp member ▸ sampleTree_fits⟩
  have sides := agree sampleModel_rules_fit rfl accumulates fits (by decide)
  have succeeds : (evaluate sampleModel sampleForest).2.isOk = true := by decide +kernel
  cases evaluated : (evaluate sampleModel sampleForest).2 with
  | error fault => simp [evaluated, Except.isOk, Except.toBool] at succeeds
  | ok outcome =>
    obtain ⟨expectation, done, -⟩ := sides.symm.of_ok evaluated
    obtain ⟨same, total, scored, computed, -, -⟩ := tallied expectation done
    refine ⟨expectation, scored, ?_, evaluated.symm.trans same, computed, total⟩
    rw [expectAfresh, afresh]
    exact done

/-- The small model, with a rule for more substates of its child than there are. -/
def overwideModel : Model Rat :=
  { sampleModel with
    grammar := { sampleModel.grammar with
      rules := ⟨[(.unary 0 1, ⟨1, 3, 1, #[1 / 2, 1 / 4, 1 / 4]⟩),
        (.binary 1 1 1, ⟨2, 2, 2, #[1 / 4, 1 / 4, 0, 1 / 2, 0, 1 / 8, 1 / 8, 0]⟩)]⟩ } }

/-- Evaluation looks up the cells of substates that are there, and counting all cells of a rule. -/
theorem overwideModel_expect_fails :
    (evaluate overwideModel sampleForest).2.isOk = true ∧
      (expectAfresh overwideModel 2 sampleForest true).2.isOk = false := by
  decide +kernel

end Training

end LatentGrammar
