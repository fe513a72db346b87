import LatentGrammar.Proofs.Reestimation.Unsplit

namespace LatentGrammar

open Finset

variable {α : Type} {substates : List Nat} {key : Production} {state : Nat} [ExactScalar α]
  {model : Model α} {forest : Forest α}

/-- The share of a rule in the expansions of its category. -/
def Forest.relativeFrequency (forest : Forest α) (key : Production) : α :=
  forest.applications key / forest.expansions key.parent

theorem Forest.relativeFrequency_of_productions {other : Forest α}
    (same : forest.productions = other.productions) :
    forest.relativeFrequency = other.relativeFrequency := by
  funext key
  simp only [relativeFrequency, applications, expansions, same]

namespace RuleCounts

variable {counts : RuleCounts α}

/-- The counts are those of the rules that expand the nodes of the trees, each of which is known. -/
structure Tallies (counts : RuleCounts α) (forest : Forest α) : Prop where
  fits : counts.rules.Fits counts.substates
  ordered : counts.rules.Ordered
  known : ∀ key ∈ forest.productions, (counts.rules.find? key).isSome
  cells : ∀ key, counts.rules.cell key 0 0 0 = forest.applications key

theorem Tallies.parentSum_eq (gathered : counts.Tallies forest) (unsplit : Unsplit counts.substates)
    (state : Nat) : counts.rules.parentSum state 0 = (forest.expansions state : Nat) := by
  have listed : ∀ key ∈ forest.productions, key ∈ counts.rules.keys := fun key member =>
    RuleTable.mem_keys.mpr (Option.isSome_iff_exists.mp (gathered.known key member))
  rw [RuleTable.parentSum, ← Forest.sum_applications listed state, Nat.cast_sum]
  refine sum_congr rfl fun key member => ?_
  obtain ⟨block, found⟩ := RuleTable.mem_keys.mp (mem_filter.mp member).1
  rw [gathered.fits.sumRow_eq found (unsplit.sized gathered.fits found).1, sum_range_one,
    sum_range_one, gathered.cells]

/-- Normalized counts of trees are relative frequencies. -/
theorem Tallies.normalize (gathered : counts.Tallies forest) (unsplit : Unsplit counts.substates)
    (plain : counts.smoothing = .none) (keeps : counts.threshold ≤ 0) :
    ∃ grammar, counts.normalize = .ok grammar ∧
      grammar.toGrammarFrame = counts.toGrammarFrame ∧
      grammar.rules.entries.map Prod.fst = counts.rules.entries.map Prod.fst ∧
      grammar.rules.Fits counts.substates ∧
      ∀ key, grammar.rules.cell key 0 0 0 = forest.relativeFrequency key := by
  have counted (key : Production) (i j k : Nat) : 0 ≤ counts.rules.cell key i j k := by
    refine gathered.fits.score_nonneg (fun use listed => ?_) (key, i, j, k)
    obtain ⟨-, parents, lefts, rights, dimensions, parent, left, right⟩ :=
      gathered.fits.mem_uses.mp listed
    obtain ⟨rfl, rfl, rfl⟩ := unsplit.dimensions dimensions
    rw [RuleTable.score, Nat.lt_one_iff.mp parent, Nat.lt_one_iff.mp left,
      Nat.lt_one_iff.mp right, gathered.cells]
    exact Nat.cast_nonneg _
  obtain ⟨grammar, normalized, frame, fits, shares⟩ :=
    normalize_eq gathered.fits gathered.ordered plain keeps counted (unsplit.fill_eq 0)
  have keys := normalize_keys normalized
  refine ⟨grammar, normalized, frame, keys, fits, fun key => ?_⟩
  cases found : counts.rules.find? key with
  | none =>
    have absent : grammar.rules.find? key = none := by
      simpa [found] using RuleTable.find?_isSome_of_keys keys key
    have never := Forest.applications_of_unknown gathered.known found
    rw [RuleTable.cell_of_absent absent, Forest.relativeFrequency, never, Nat.cast_zero, zero_div]
  | some block =>
    rw [shares key 1 1 1 (unsplit.sized gathered.fits found).1 0 zero_lt_one 0 zero_lt_one 0
      zero_lt_one, gathered.cells, gathered.parentSum_eq unsplit, Forest.relativeFrequency]

/-- Counts in a frame without latent structure, in order and with no rule that was not counted. -/
structure CountedIn (frame : GrammarFrame α) (counts : RuleCounts α) : Prop where
  inFrame : counts.InFrame frame
  ordered : counts.rules.Ordered
  counted : ∀ key, (counts.rules.find? key).isSome → 0 < counts.rules.cell key 0 0 0

variable {frame : GrammarFrame α} {tree : LatentTree α}

theorem CountedIn.block_of (countedIn : CountedIn frame counts) (unsplit : Unsplit frame.substates)
    (key : Production) :
    ∃ block, counts.block key (1, 1, 1) = .ok block ∧ block.Sized 1 1 1 ∧
      block.cell 0 0 0 = counts.rules.cell key 0 0 0 ∧ 0 ≤ block.cell 0 0 0 := by
  unfold RuleCounts.block
  cases found : counts.rules.find? key with
  | none =>
    refine ⟨⟨1, 1, 1, #[0]⟩, rfl, ⟨rfl, rfl, rfl, rfl⟩, ?_, le_rfl⟩
    rw [RuleTable.cell_of_absent found]
    rfl
  | some block =>
    have some := countedIn.counted key (by rw [found]; rfl)
    rw [RuleTable.cell_of_find? found] at some ⊢
    exact ⟨block, rfl, (unsplit.sized countedIn.inFrame.2 found).2, rfl, some.le⟩

theorem CountedIn.countTopEvenly (countedIn : CountedIn frame counts)
    (unsplit : Unsplit frame.substates) (fits : tree.Fits frame.substates) :
    Delivers Never
      (Grows (CountedIn frame) (fun counts key => counts.rules.cell key 0 0 0) counts
        fun key => if tree.rule? = some key then 1 else 0)
      (counts.countTopEvenly tree) := by
  have blocks := countedIn.block_of unsplit
  obtain ⟨⟨rfl, tableFits⟩, ordered, counted⟩ := countedIn
  cases expands : tree.rule? with
  | none =>
    simp only [RuleCounts.countTopEvenly, expands]
    refine ⟨⟨⟨rfl, tableFits⟩, ordered, counted⟩, ?_⟩
    funext key
    simp
  | some here =>
    obtain ⟨parents, lefts, rights, dimensions⟩ := fits.dimensions expands
    obtain ⟨rfl, rfl, rfl⟩ := unsplit.dimensions dimensions
    obtain ⟨block, known, sized, same, nonneg⟩ := blocks here
    have raised : (block.map (· + 1)).cell 0 0 0 = block.cell 0 0 0 + 1 :=
      sized.cell_map zero_lt_one zero_lt_one zero_lt_one _
    simp only [RuleCounts.countTopEvenly, expands, dimensions, known, ok_bind]
    refine ⟨⟨⟨rfl, tableFits.insert ((sized.map _).fits dimensions)⟩, ordered.insert, ?_⟩, ?_⟩
    · intro key present
      rw [RuleTable.cell_insert]
      by_cases own : key = here
      · rw [if_pos own, raised]
        exact add_pos_of_nonneg_of_pos nonneg zero_lt_one
      · rw [RuleTable.find?_insert, if_neg own] at present
        rw [if_neg own]
        exact counted key present
    · funext key
      simp only [RuleTable.cell_insert, Pi.add_apply, Option.some.injEq]
      by_cases own : key = here
      · rw [if_pos own, if_pos own.symm, raised, same, own]
      · rw [if_neg own, if_neg (Ne.symm own), add_zero]

theorem CountedIn.countEvenly (countedIn : CountedIn frame counts)
    (unsplit : Unsplit frame.substates)
    (fits : ∀ tree ∈ forest.trees, tree.Fits frame.substates) :
    Delivers Never
      (Grows (CountedIn frame) (fun counts key => counts.rules.cell key 0 0 0) counts
        fun key => (forest.applications key : Nat))
      (forest.trees.foldlM RuleCounts.countEvenly counts) := by
  have each (counts : RuleCounts α) (tree : LatentTree α) (member : tree ∈ forest.trees)
      (countedIn : CountedIn frame counts) :
      Delivers Never
        (Grows (CountedIn frame) (fun counts key => counts.rules.cell key 0 0 0) counts
          fun key => (tree.productions.count key : Nat))
        (counts.countEvenly tree) := by
    have nodes : Delivers Never _ (counts.countEvenly tree) := Delivers.foldlM_grows
      (fun node key => if node.rule? = some key then (1 : α) else 0) countedIn
      fun counts node listed countedIn =>
        countedIn.countTopEvenly unsplit ((fits tree member).of_mem listed)
    rw [sum_map_apply] at nodes
    simp only [LatentTree.sum_map_expands] at nodes
    exact nodes
  have all := Delivers.foldlM_grows _ countedIn each
  rw [sum_map_apply] at all
  have total (key : Production) :
      (forest.trees.map fun tree => ((tree.productions.count key : Nat) : α)).sum =
        (forest.applications key : Nat) := by
    rw [Forest.applications, Forest.productions, List.count_flatMap, Nat.cast_list_sum, List.map_map]
    rfl
  simp only [total] at all
  exact all

/-- Counting from nothing tallies the rules that occur, and no others. -/
theorem start_countEvenly (unsplit : Unsplit substates)
    (fits : ∀ tree ∈ forest.trees, tree.Fits substates) (root : Nat) (threshold : α) :
    ∃ start counts, RuleCounts.start substates root threshold = .ok start ∧
      forest.trees.foldlM RuleCounts.countEvenly start = .ok counts ∧
      counts.toGrammarFrame = start.toGrammarFrame ∧ start.substates = substates ∧
      start.smoothing = .none ∧ start.threshold = threshold ∧ counts.Tallies forest ∧
      ∀ key, (counts.rules.find? key).isSome ↔ 0 < forest.applications key := by
  have ancestry : substates.mapM Ancestry.uniform = .ok (substates.map fun _ => ⟨[some 0]⟩) := by
    apply mapM_eq_map
    intro size member
    rw [unsplit size member]
    rfl
  have begun : RuleCounts.start substates root threshold = .ok
      ⟨⟨substates, root, .none, threshold, substates.map fun _ => ⟨[some 0]⟩⟩, .empty⟩ := by
    simp only [RuleCounts.start, ancestry]
    rfl
  have empty : CountedIn
      ⟨substates, root, .none, threshold, substates.map fun _ => ⟨[some 0]⟩⟩
      (⟨⟨substates, root, .none, threshold, substates.map fun _ => ⟨[some 0]⟩⟩, .empty⟩ :
        RuleCounts α) := by
    refine ⟨⟨rfl, fun _ absent => absurd absent List.not_mem_nil⟩, List.Pairwise.nil, ?_⟩
    intro key absent
    cases absent
  obtain ⟨counts, counted, ⟨⟨frame, tableFits⟩, ordered, positive⟩, grown⟩ :=
    delivers_never_iff.mp (empty.countEvenly unsplit fits)
  have cells (key : Production) : counts.rules.cell key 0 0 0 = (forest.applications key : Nat) := by
    have here := congrFun grown key
    rw [Pi.add_apply] at here
    exact here.trans (zero_add _)
  have present (key : Production) :
      (counts.rules.find? key).isSome ↔ 0 < forest.applications key := by
    constructor
    · intro known
      have some := positive key known
      rw [cells] at some
      exact Nat.cast_pos.mp some
    · intro occurs
      by_contra missing
      have absent : counts.rules.find? key = none := by simpa using missing
      have none : ((forest.applications key : Nat) : α) = 0 := by
        rw [← cells key, RuleTable.cell_of_absent absent]
      exact occurs.ne' (Nat.cast_eq_zero.mp none)
  refine ⟨_, counts, begun, counted, frame, rfl, rfl, rfl, ⟨?_, ordered, ?_, cells⟩, present⟩
  · rw [frame]
    exact tableFits
  · exact fun key member => (present key).mpr (List.count_pos_iff.mpr member)

/-- Rules that are counted alone, without any scores, come to relative frequencies. -/
theorem estimate_evenly {γ : Type} [Draws γ α] (unsplit : Unsplit substates)
    (fits : ∀ tree ∈ forest.trees, tree.Fits substates) (root : Nat) {threshold : α}
    (keeps : threshold ≤ 0) (stream : γ) :
    ∃ start counts direct, RuleCounts.start substates root threshold = .ok start ∧
      forest.trees.foldlM RuleCounts.countEvenly start = .ok counts ∧
      counts.estimate 0 stream = .ok (direct, stream) ∧ direct.rules.Fits substates ∧
      (∀ key, (direct.rules.find? key).isSome ↔ 0 < forest.applications key) ∧
      ∀ key, direct.rules.cell key 0 0 0 = forest.relativeFrequency key := by
  obtain ⟨start, counts, begun, counted, sameStart, sizes, plain, kept, tallies, present⟩ :=
    start_countEvenly unsplit fits root threshold
  have countSizes : counts.substates = substates :=
    (congrArg GrammarFrame.substates sameStart).trans sizes
  obtain ⟨direct, normalized, -, keys, directFits, frequencies⟩ :=
    tallies.normalize (countSizes ▸ unsplit)
      ((congrArg GrammarFrame.smoothing sameStart).trans plain)
      (((congrArg GrammarFrame.threshold sameStart).trans kept).trans_le keeps)
  refine ⟨start, counts, direct, begun, counted, estimate_zero normalized stream,
    countSizes ▸ directFits, fun key => ?_, frequencies⟩
  rw [RuleTable.find?_isSome_of_keys keys key]
  exact present key

end RuleCounts

namespace Training

/-- A pass that comes to its end keeps the sizes of the trees and of the emission tables. -/
theorem expectAfresh_fits (rules : model.grammar.rules.Fits model.substates)
    (lexicon : model.lexicon.Consistent) (same : model.lexicon.substates = model.substates)
    (fits : ∀ tree ∈ forest.trees, tree.Fits model.substates ∧ tree.substates = 1)
    {start : Option (RuleCounts α)} {emissions : EmissionCounts α}
    (afresh : countsAfter model true = .ok (start, emissions)) {rare : α} {scored : Forest α}
    {expectation : Expectation α}
    (passed : expectAfresh model rare forest true = (scored, .ok expectation)) :
    (∀ tree ∈ scored.trees, tree.Fits model.substates) ∧
      expectation.emissions.InFrame model.lexicon.toLexiconFrame := by
  obtain ⟨whole, -, -⟩ := countsAfter_zero rules same afresh
  have step (index : Nat) (tree : LatentTree α) (expectation : Expectation α)
      (fits : tree.Fits model.substates ∧ tree.substates = 1) (whole : expectation.Whole model) :
      Delivers Never
        (fun next => (next.1.Fits model.substates ∧ next.1.substates = 1) ∧ next.2.Whole model)
        (expectTree model rare forest.size index tree expectation) := by
    refine (expectTree_grows rules lexicon same fits.1 fits.2 rare forest.size index whole).mono_ok
      fun next done grows => ⟨?_, grows.kept⟩
    obtain ⟨scored, success, scores⟩ :=
      LatentTree.computeBoth_scores rules lexicon same fits.1 fits.2
    obtain rfl := Except.ok.inj (success.symm.trans (expectTree_scores done))
    exact ⟨scores.fits, scores.single⟩
  obtain ⟨trees, swept⟩ := Forest.sweep_delivers step fits whole 0
  simp only [expectAfresh, afresh] at passed
  obtain ⟨kept, concluded⟩ := Prod.ext_iff.mp passed
  rw [Pass.ofSweep_snd, expect_conclusion] at concluded
  obtain ⟨result, done, concluded⟩ := bind_eq_ok_iff.mp concluded
  obtain ⟨tied, replaced, last⟩ := bind_eq_ok_iff.mp concluded
  obtain rfl := Except.ok.inj last
  have inFrame : result.emissions.InFrame model.lexicon.toLexiconFrame := (swept.of_ok done).emissions
  have tiedInFrame : Delivers Any _ _ := EmissionCounts.tieRare_delivers inFrame rare
  refine ⟨?_, tiedInFrame.of_ok replaced⟩
  have sweptTrees : (expect model rare forest start emissions).trees =
      (expectTrees model rare forest start emissions).trees := by
    unfold expect
    dsimp only
    split
    · rfl
    · split <;> rfl
  obtain rfl : _ = scored := kept
  intro tree member
  have listed : tree ∈ (expectTrees model rare forest start emissions).trees := sweptTrees ▸ member
  exact (trees tree listed).1

end Training

namespace Model.Baseline

theorem tallies (baseline : model.Baseline)
    (fits : ∀ tree ∈ forest.trees, tree.Fits model.substates)
    (weighs : ∀ tree ∈ forest.trees, model.Weighs tree) (rare : α) :
    ∃ scored expectation counts,
      Training.expectAfresh model rare forest true = (scored, .ok expectation) ∧
        (∀ tree ∈ scored.trees, tree.Fits model.substates) ∧
        expectation.emissions.InFrame model.lexicon.toLexiconFrame ∧
        expectation.rules = some counts ∧
        counts.toGrammarFrame = model.grammar.toGrammarFrame ∧
        counts.rules.entries.map Prod.fst = model.grammar.rules.entries.map Prod.fst ∧
        counts.Tallies forest := by
  obtain ⟨start, emissions, afresh⟩ := baseline.countsAfter_ok
  have single : ∀ tree ∈ forest.trees, tree.Fits model.substates ∧ tree.substates = 1 :=
    fun tree member => ⟨fits tree member, baseline.unsplit.substates_eq (fits tree member)⟩
  obtain ⟨scored, expectation, counts, passed, known, covers, ⟨frame, ordered⟩, expected⟩ :=
    Training.expectAfresh_counts baseline.rules baseline.ordered baseline.lexicon baseline.same
      single afresh rare
  obtain ⟨trees, inFrame⟩ := Training.expectAfresh_fits baseline.rules baseline.lexicon
    baseline.same single afresh passed
  obtain ⟨occurring, uses⟩ := baseline.forest_uses fits weighs
  refine ⟨scored, expectation, counts, passed, trees, inFrame, known, frame,
    ordered.keys_eq baseline.ordered covers.same, ?_, ordered, ?_, fun key => ?_⟩
  · rw [congrArg GrammarFrame.substates frame]
    exact covers.fits
  · intro key member
    rw [covers.same]
    exact occurring key member
  · cases found : model.grammar.rules.find? key with
    | none =>
      have absent : counts.rules.find? key = none := by simpa [found] using covers.same key
      have never := Forest.applications_of_unknown occurring found
      rw [RuleTable.cell_of_absent absent, never, Nat.cast_zero]
    | some block =>
      obtain ⟨dimensions, -⟩ := baseline.unsplit.sized baseline.rules found
      have listed : (key, 0, 0, 0) ∈ model.grammar.rules.uses := baseline.rules.mem_uses.mpr
        ⟨⟨block, found⟩, 1, 1, 1, dimensions, zero_lt_one, zero_lt_one, zero_lt_one⟩
      exact (expected _ listed).trans (uses key dimensions)

/-- Without latent structure, grammars with the same rules and cells are the same. -/
theorem grammar_eq {other : Model α} (baseline : model.Baseline) (otherBaseline : other.Baseline)
    (frame : model.grammar.toGrammarFrame = other.grammar.toGrammarFrame)
    (keys : model.grammar.rules.entries.map Prod.fst = other.grammar.rules.entries.map Prod.fst)
    (cells : ∀ key, model.grammar.rules.cell key 0 0 0 = other.grammar.rules.cell key 0 0 0) :
    model.grammar = other.grammar := by
  have sizes : model.substates = other.substates := congrArg GrammarFrame.substates frame
  have rules : model.grammar.rules = other.grammar.rules := by
    refine baseline.ordered.ext otherBaseline.ordered fun key => ?_
    exact baseline.rules.find?_eq_of_cells baseline.unsplit (sizes ▸ otherBaseline.rules)
      (RuleTable.find?_isSome_of_keys keys key) (cells key)
  calc model.grammar = ⟨model.grammar.toGrammarFrame, model.grammar.rules⟩ := rfl
    _ = other.grammar := by rw [frame, rules]

/-- One step of re-estimation comes to relative frequencies, without latent structure again. -/
theorem nextModel (baseline : model.Baseline)
    (fits : ∀ tree ∈ forest.trees, tree.Fits model.substates)
    (weighs : ∀ tree ∈ forest.trees, model.Weighs tree) (rare : α) :
    ∃ scored next outcome, Training.nextModel model rare forest = (scored, .ok (next, outcome)) ∧
      next.Baseline ∧ (∀ tree ∈ scored.trees, tree.Fits next.substates) ∧
      scored.productions = forest.productions ∧
      next.grammar.toGrammarFrame = model.grammar.toGrammarFrame ∧
      next.grammar.rules.entries.map Prod.fst = model.grammar.rules.entries.map Prod.fst ∧
      (∀ key ∈ forest.productions, (next.grammar.rules.find? key).isSome) ∧
      ∀ key, next.grammar.rules.cell key 0 0 0 = forest.relativeFrequency key := by
  obtain ⟨scored, expectation, counts, passed, trees, inFrame, known, frame, keys, tallies⟩ :=
    baseline.tallies fits weighs rare
  have sizes : counts.substates = model.substates := congrArg GrammarFrame.substates frame
  obtain ⟨grammar, normalized, sameFrame, sameKeys, rules, frequencies⟩ :=
    tallies.normalize (sizes ▸ baseline.unsplit)
      ((congrArg GrammarFrame.smoothing frame).trans baseline.plain)
      ((congrArg GrammarFrame.threshold frame).trans_le baseline.keeps)
  have nextSizes : grammar.substates = model.substates :=
    (congrArg GrammarFrame.substates sameFrame).trans sizes
  have lexicon := inFrame.estimate baseline.lexicon.ancestry
  have skeletons := Training.nextModel_skeletons model rare forest
  refine ⟨scored, ⟨grammar, expectation.emissions.estimate⟩, expectation.outcome, ?_, ?_, ?_, ?_,
    sameFrame.trans frame, sameKeys.trans keys, ?_, frequencies⟩
  · simp only [Training.nextModel, passed, Training.maximize, known, Except.bind, normalized,
      ok_bind]
    rfl
  · exact {
      unsplit := by rw [Model.substates, nextSizes]; exact baseline.unsplit
      plain := (congrArg GrammarFrame.smoothing (sameFrame.trans frame)).trans baseline.plain
      keeps := (congrArg GrammarFrame.threshold (sameFrame.trans frame)).trans_le baseline.keeps
      rules := by rw [Model.substates, nextSizes, ← sizes]; exact rules
      ordered := by rw [RuleTable.Ordered, sameKeys]; exact tallies.ordered
      lexicon := lexicon.2
      same := by
        rw [Model.substates, nextSizes, ← baseline.same]
        exact congrArg LexiconFrame.substates lexicon.1 }
  · rw [Model.substates, nextSizes]
    exact trees
  · apply Forest.productions_of_skeletons
    rw [Training.nextModel, passed] at skeletons
    exact skeletons
  · intro key member
    rw [RuleTable.find?_isSome_of_keys sameKeys]
    exact tallies.known key member

end Model.Baseline

/-- Without latent structure, one step of re-estimation reaches the relative frequencies of the rules
in the trees, whatever the scores were before. Counting the rules alone gives the same scores to the
rules that occur, and a further step leaves the grammar as it is. -/
theorem Training.nextModel_frequencies {γ : Type} [Draws γ α] (baseline : model.Baseline)
    (fits : ∀ tree ∈ forest.trees, tree.Fits model.substates)
    (weighs : ∀ tree ∈ forest.trees, model.Weighs tree) (rare : α) :
    ∃ scored next outcome, Training.nextModel model rare forest = (scored, .ok (next, outcome)) ∧
      next.grammar.toGrammarFrame = model.grammar.toGrammarFrame ∧
      next.grammar.rules.entries.map Prod.fst = model.grammar.rules.entries.map Prod.fst ∧
      (∀ key ∈ forest.productions, (next.grammar.rules.find? key).isSome) ∧
      (∀ key, next.grammar.rules.cell key 0 0 0 = forest.relativeFrequency key) ∧
      (∀ root (threshold : α) (stream : γ), threshold ≤ 0 → ∃ start counts direct,
        RuleCounts.start model.substates root threshold = .ok start ∧
        forest.trees.foldlM RuleCounts.countEvenly start = .ok counts ∧
        counts.estimate 0 stream = .ok (direct, stream) ∧
        ∀ key, direct.rules.find? key =
          if 0 < forest.applications key then next.grammar.rules.find? key else none) ∧
      ∀ again, (∀ tree ∈ scored.trees, next.Weighs tree) → ∃ rescored last outcome,
        Training.nextModel next again scored = (rescored, .ok (last, outcome)) ∧
        last.grammar = next.grammar := by
  obtain ⟨scored, next, outcome, stepped, nextBaseline, scoredFits, same, frame, keys, occurring,
    frequencies⟩ := baseline.nextModel fits weighs rare
  refine ⟨scored, next, outcome, stepped, frame, keys, occurring, frequencies, ?_, ?_⟩
  · intro root threshold stream keeps
    obtain ⟨start, counts, direct, begun, counted, estimated, directFits, present, directCells⟩ :=
      RuleCounts.estimate_evenly baseline.unsplit fits root keeps stream
    have nextFits := nextBaseline.rules
    rw [show next.substates = model.substates from congrArg GrammarFrame.substates frame] at nextFits
    refine ⟨start, counts, direct, begun, counted, estimated, fun key => ?_⟩
    by_cases occurs : 0 < forest.applications key
    · rw [if_pos occurs]
      refine directFits.find?_eq_of_cells baseline.unsplit nextFits ?_ ?_
      · rw [(present key).mpr occurs, occurring key (List.count_pos_iff.mp occurs)]
      · rw [directCells, frequencies]
    · rw [if_neg occurs]
      rw [← present key] at occurs
      simpa using occurs
  · intro again stillWeighs
    obtain ⟨rescored, last, outcome, steppedAgain, lastBaseline, -, -, sameFrame, sameKeys, -,
      sameFrequencies⟩ := nextBaseline.nextModel scoredFits stillWeighs again
    refine ⟨rescored, last, outcome, steppedAgain, lastBaseline.grammar_eq nextBaseline sameFrame
      sameKeys fun key => ?_⟩
    rw [sameFrequencies, frequencies, Forest.relativeFrequency_of_productions same]

/-- A small model without latent structure. One of its rules does not occur in the trees below. -/
def sampleBaseline : Model Rat where
  grammar :=
    { substates := [1, 1]
      root := 0
      smoothing := .none
      threshold := 0
      ancestry := [⟨[some 0]⟩, ⟨[some 0]⟩]
      rules := ⟨[(.unary 0 1, ⟨1, 1, 1, #[1 / 3]⟩), (.unary 1 0, ⟨1, 1, 1, #[1 / 5]⟩),
        (.unary 1 1, ⟨1, 1, 1, #[1 / 4]⟩), (.binary 1 1 1, ⟨1, 1, 1, #[1 / 7]⟩)]⟩ }
  lexicon :=
    { substates := [1, 1]
      root := 0
      settings := ⟨.simple, 0, 0, 0, 0⟩
      smoothing := .none
      ancestry := [⟨[some 0]⟩, ⟨[some 0]⟩]
      tables :=
        { tagCounts := [[0], [6]]
          wordCounts := [[], [("rain", [4]), ("fell", [2])]]
          wordTotals := [("rain", 4), ("fell", 2)]
          totalTokens := 6
          unseenTagCounts := [[0], [0]]
          unseenSignatureCounts := [[], []]
          unseenSignatureTotals := []
          unseenTotal := 0 } }

def baselineForest : Forest Rat where
  trees :=
    [.unary 0 (blankScores 1)
      (.binary 1 (blankScores 1) (.preterminal 1 "rain" (blankScores 1))
        (.preterminal 1 "fell" (blankScores 1))),
    .unary 0 (blankScores 1) (.unary 1 (blankScores 1) (.preterminal 1 "rain" (blankScores 1)))]
  substates := [1, 1]

theorem sampleBaseline_baseline : sampleBaseline.Baseline where
  unsplit := by simp [Unsplit, sampleBaseline, Model.substates]
  plain := rfl
  keeps := le_rfl
  rules := by
    simp only [RuleTable.Fits, sampleBaseline, List.forall_mem_cons]
    exact ⟨⟨1, 1, 1, rfl, rfl, rfl, rfl, rfl⟩, ⟨1, 1, 1, rfl, rfl, rfl, rfl, rfl⟩,
      ⟨1, 1, 1, rfl, rfl, rfl, rfl, rfl⟩, ⟨1, 1, 1, rfl, rfl, rfl, rfl, rfl⟩, by simp⟩
  ordered := by simp [RuleTable.Ordered, sampleBaseline, Production.before]
  lexicon := by
    constructor
    · simp [sampleBaseline, Ancestry.Fits, Ancestry.size]
    · constructor <;> simp [sampleBaseline, HasSize, NameTable.Fits]
  same := rfl

theorem baselineForest_fits : ∀ tree ∈ baselineForest.trees, tree.Fits sampleBaseline.substates := by
  have sized (state : Nat) (found : sampleBaseline.substates[state]? = some 1) :
      (blankScores 1).Fits sampleBaseline.substates state :=
    ⟨by simpa [blankScores] using found, by simp [blankScores], by simp [blankScores, Word.tableLimit]⟩
  have top := sized 0 rfl
  have below := sized 1 rfl
  intro tree member
  simp only [baselineForest, List.mem_cons, List.not_mem_nil, or_false] at member
  rcases member with rfl | rfl
  · simp only [LatentTree.fits_unary, LatentTree.fits_binary, LatentTree.fits_preterminal]
    exact ⟨top, below, below, below⟩
  · simp only [LatentTree.fits_unary, LatentTree.fits_preterminal]
    exact ⟨top, below, below⟩

/-- Whether a model gives all trees a mass. -/
def Model.weighsAll (model : Model α) (trees : List (LatentTree α)) : Bool :=
  trees.all fun tree => match tree.massUnder model with
    | .ok mass => 0 < mass
    | .error _ => false

theorem Model.weighs_of_weighsAll {trees : List (LatentTree α)} (all : model.weighsAll trees = true) :
    ∀ tree ∈ trees, model.Weighs tree := by
  intro tree member
  have weighed := List.all_eq_true.mp all tree member
  cases found : tree.massUnder model with
  | error fault => simp [found] at weighed
  | ok mass =>
    rw [found] at weighed
    exact ⟨mass, found, of_decide_eq_true weighed⟩

theorem sampleBaseline_frequencies :
    ∃ scored next outcome,
      Training.nextModel sampleBaseline 0 baselineForest = (scored, .ok (next, outcome)) ∧
        next.grammar.rules.cell (.binary 1 1 1) 0 0 0 = 1 / 2 ∧
        next.grammar.rules.cell (.unary 1 0) 0 0 0 = 0 ∧
        ∃ rescored last outcome,
          Training.nextModel next 0 scored = (rescored, .ok (last, outcome)) ∧
            last.grammar = next.grammar := by
  have weighs : ∀ tree ∈ baselineForest.trees, sampleBaseline.Weighs tree :=
    Model.weighs_of_weighsAll (by decide +kernel)
  obtain ⟨scored, next, outcome, stepped, -, -, -, frequencies, -, again⟩ :=
    Training.nextModel_frequencies (γ := Unit) sampleBaseline_baseline baselineForest_fits weighs 0
  have still : (match Training.nextModel sampleBaseline 0 baselineForest with
      | (scored, .ok (next, _)) => next.weighsAll scored.trees
      | _ => false) = true := by decide +kernel
  rw [stepped] at still
  refine ⟨scored, next, outcome, stepped, ?_, ?_, again 0 (Model.weighs_of_weighsAll still)⟩
  · rw [frequencies]
    decide +kernel
  · rw [frequencies]
    decide +kernel

end LatentGrammar
