import LatentGrammar.Proofs.Consistency.Merge
import LatentGrammar.Proofs.Scoring.Shape
import LatentGrammar.Training.Expectation

/-! Passes over a forest that fits the model. Whatever a pass does with a tree, it leaves a tree of
the same shape behind, and what it gathers keeps the sizes of the model; so a pass never looks up
anything that is not there, and the next model is consistent again. -/

namespace LatentGrammar

variable {α : Type} {allowed : Fault → Prop}

/-- All trees have vectors for the given numbers of substates. -/
structure Forest.Fits (forest : Forest α) (substates : List Nat) : Prop where
  substates_eq : forest.substates = substates
  trees : ∀ tree ∈ forest.trees, tree.Fits substates

/-- Trees keep a property through a sweep, and so does the result, also when the sweep is cut short
by a fault. -/
theorem Forest.sweep_delivers {β : Type} {whole : LatentTree α → Prop} {invariant : β → Prop}
    {step : Nat → LatentTree α → β → Except Fault (LatentTree α × β)}
    (each : ∀ index tree result, whole tree → invariant result →
      Delivers allowed (fun next => whole next.1 ∧ invariant next.2) (step index tree result))
    {trees : List (LatentTree α)} (all : ∀ tree ∈ trees, whole tree) {start : β}
    (initial : invariant start) (index : Nat) :
    (∀ tree ∈ (sweep step index trees start).trees, whole tree) ∧
      Delivers allowed invariant (match (sweep step index trees start).fault with
        | none => .ok (sweep step index trees start).result
        | some fault => .error fault) := by
  induction trees generalizing index start with
  | nil => exact ⟨all, initial⟩
  | cons tree rest ih =>
    obtain ⟨here, later⟩ := List.forall_mem_cons.mp all
    have stepped := each index tree start here initial
    unfold sweep
    cases done : step index tree start with
    | error fault =>
      rw [done] at stepped
      exact ⟨all, stepped⟩
    | ok next =>
      rw [done] at stepped
      obtain ⟨final, finalResult⟩ := ih later stepped.2 (index + 1)
      exact ⟨List.forall_mem_cons.mpr ⟨stepped.1, final⟩, finalResult⟩

namespace Training

/-- A pass that leaves a forest of the same shape and comes to a result with the property. -/
def Pass.Sound {β : Type} (allowed : Fault → Prop) (substates : List Nat) (property : β → Prop)
    (pass : Pass α β) : Prop :=
  pass.1.Fits substates ∧ Delivers allowed property pass.2

theorem Pass.ofSweep_sound {β : Type} {substates : List Nat} {invariant : β → Prop}
    {step : Nat → LatentTree α → β → Except Fault (LatentTree α × β)}
    (each : ∀ index tree result, tree.Fits substates → invariant result →
      Delivers allowed (fun next => next.1.Fits substates ∧ invariant next.2)
        (step index tree result))
    {forest : Forest α} (fits : forest.Fits substates) {start : β} (initial : invariant start)
    (index : Nat) :
    (Pass.ofSweep forest (Forest.sweep step index forest.trees start)).Sound allowed substates
      invariant := by
  obtain ⟨trees, result⟩ := Forest.sweep_delivers each fits.trees initial index
  constructor
  · exact ⟨fits.substates_eq, trees⟩
  · unfold ofSweep
    exact result

variable [Scalar α] {model : Model α} {categories root : Nat} {forest : Forest α}

omit [Scalar α] in
theorem nonempty_of_fits (consistent : model.Consistent categories root) {tree : LatentTree α}
    (fits : tree.Fits model.substates) : 0 < tree.substates :=
  consistent.positive _ (List.mem_of_getElem? fits.substates_eq)

theorem computeInside_fits (consistent : model.Consistent categories root) {tree : LatentTree α}
    (fits : tree.Fits model.substates) :
    Delivers allowed (·.Fits model.substates) (tree.computeInside model) :=
  (LatentTree.computeInside_delivers consistent.rules consistent.lexicon.answers fits
    (consistent.substates_eq ▸ fits)).mono fun _ alike => alike.fits fits

theorem computeBoth_fits (consistent : model.Consistent categories root) {tree : LatentTree α}
    (fits : tree.Fits model.substates) :
    Delivers allowed (·.Fits model.substates) (tree.computeBoth model) :=
  (LatentTree.computeBoth_delivers consistent.rules consistent.lexicon.answers fits
    (consistent.substates_eq ▸ fits)).mono fun _ alike => alike.fits fits

theorem evaluate_sound (consistent : model.Consistent categories root)
    (fits : forest.Fits model.substates) :
    (evaluate model forest).Sound allowed model.substates fun _ => True := by
  refine Pass.ofSweep_sound (fun _ tree outcome treeFits _ => ?_) fits trivial 0
  apply (computeInside_fits consistent treeFits).bind
  intro scored scoredFits
  have massed : Delivers allowed (fun _ => True) scored.mass :=
    LatentTree.delivers_mass (nonempty_of_fits consistent scoredFits)
  apply massed.bind
  intro mass _
  refine Delivers.ite (fun _ => ?_) fun _ => ⟨scoredFits, trivial⟩
  have logged : Delivers allowed (fun _ => True) scored.logLikelihood :=
    massed.bind fun _ _ => trivial
  exact logged.bind fun _ _ => ⟨scoredFits, trivial⟩

/-- What is gathered in a pass has the sizes of the model. -/
structure Expectation.InFrame (expectation : Expectation α) (model : Model α) : Prop where
  rules : ∀ rules, expectation.rules = some rules → rules.InFrame model.grammar.toGrammarFrame
  emissions : expectation.emissions.InFrame model.lexicon.toLexiconFrame

theorem expectTree_delivers (consistent : model.Consistent categories root) {tree : LatentTree α}
    (fits : tree.Fits model.substates) {expectation : Expectation α}
    (inFrame : expectation.InFrame model) (overflow : allowed .overflow) (rare : α)
    (size index : Nat) :
    Delivers allowed (fun next => next.1.Fits model.substates ∧ next.2.InFrame model)
      (expectTree model rare size index tree expectation) := by
  apply (computeBoth_fits consistent fits).bind
  intro scored scoredFits
  have nonempty := nonempty_of_fits consistent scoredFits
  have lexical : scored.Fits model.lexicon.substates := consistent.substates_eq ▸ scoredFits
  apply (LatentTree.delivers_mass nonempty).bind
  intro mass _
  refine Delivers.ite (fun _ => ?_) fun _ => ⟨scoredFits, inFrame.rules, inFrame.emissions⟩
  refine (EmissionCounts.countScored_delivers inFrame.emissions lexical nonempty).bind
    fun emissions emissionsFit => ?_
  have counted : Delivers allowed
      (fun counts => ∀ rules, counts = some rules → rules.InFrame model.grammar.toGrammarFrame)
      (expectation.rules.mapM (·.countScored model.grammar scored)) := by
    cases known : expectation.rules with
    | none => exact fun _ absent => nomatch absent
    | some rules =>
      refine (RuleCounts.countScored_delivers consistent.rules (inFrame.rules rules known)
        scoredFits nonempty overflow).bind fun counts fits rules same => ?_
      obtain rfl := Option.some.inj same
      exact fits
  apply counted.bind
  intro rules rulesFit
  have logged : Delivers allowed (fun _ => True) scored.logLikelihood :=
    (LatentTree.delivers_mass nonempty).bind fun _ _ => trivial
  exact logged.bind fun _ _ => ⟨scoredFits, rulesFit, emissionsFit⟩

theorem countsAfter_delivers (consistent : model.Consistent categories root)
    (overflow : allowed .overflow) (withRules : Bool) :
    Delivers allowed (fun counts => (⟨.start, counts.1, counts.2⟩ : Expectation α).InFrame model)
      (countsAfter model withRules) := by
  have gathered (rules : Option (RuleCounts α))
      (fits : ∀ counts, rules = some counts → counts.InFrame model.grammar.toGrammarFrame) :
      Delivers allowed (fun counts => (⟨.start, counts.1, counts.2⟩ : Expectation α).InFrame model)
        (do return (rules, ← EmissionCounts.after model.lexicon)) :=
    (EmissionCounts.after_delivers model.lexicon overflow).bind fun _ emissionsFit =>
      ⟨fits, emissionsFit⟩
  cases withRules with
  | false => exact gathered none fun _ absent => nomatch absent
  | true =>
    have rules := RuleCounts.after_delivers consistent.rules overflow
    unfold countsAfter
    cases known : RuleCounts.after model.grammar with
    | error fault =>
      rw [known] at rules
      exact rules
    | ok counts =>
      rw [known] at rules
      exact gathered (some counts) fun _ same => Option.some.inj same ▸ rules

theorem expect_delivers (consistent : model.Consistent categories root)
    (fits : forest.Fits model.substates) {rules : Option (RuleCounts α)}
    {emissions : EmissionCounts α}
    (start : (⟨.start, rules, emissions⟩ : Expectation α).InFrame model)
    (overflow : allowed .overflow) (rare : α) :
    (∀ tree ∈ (expect model rare forest rules emissions).trees, tree.Fits model.substates) ∧
      Delivers allowed (·.InFrame model)
        (match (expect model rare forest rules emissions).fault with
          | none => .ok (expect model rare forest rules emissions).result
          | some fault => .error fault) := by
  have each (index : Nat) (tree : LatentTree α) (expectation : Expectation α)
      (treeFits : tree.Fits model.substates) (inFrame : expectation.InFrame model) :
      Delivers allowed (fun next => next.1.Fits model.substates ∧ next.2.InFrame model)
        (expectTree model rare forest.size index tree expectation) :=
    expectTree_delivers consistent treeFits inFrame overflow rare forest.size index
  have swept := Forest.sweep_delivers each fits.trees start 0
  unfold expect expectTrees
  generalize Forest.sweep (expectTree model rare forest.size) 0 forest.trees
    ⟨.start, rules, emissions⟩ = sweep at swept
  obtain ⟨trees, result⟩ := swept
  cases broken : sweep.fault with
  | some fault =>
    rw [broken] at result
    simp only [broken]
    exact ⟨trees, result⟩
  | none =>
    rw [broken] at result
    have tied : Delivers allowed (·.InFrame model.lexicon.toLexiconFrame)
        (sweep.result.emissions.tieRare rare) :=
      EmissionCounts.tieRare_delivers result.emissions rare
    cases done : sweep.result.emissions.tieRare rare with
    | error fault =>
      rw [done] at tied
      simp only [broken, done]
      exact ⟨trees, tied⟩
    | ok emissions =>
      rw [done] at tied
      simp only [broken, done]
      exact ⟨trees, result.rules, tied⟩

theorem expectAfresh_sound (consistent : model.Consistent categories root)
    (fits : forest.Fits model.substates) (overflow : allowed .overflow) (rare : α)
    (withRules : Bool) :
    (expectAfresh model rare forest withRules).Sound allowed model.substates
      (·.InFrame model) := by
  have counts := countsAfter_delivers consistent overflow withRules
  unfold expectAfresh
  cases known : countsAfter model withRules with
  | error fault =>
    rw [known] at counts
    exact ⟨fits, counts⟩
  | ok start =>
    rw [known] at counts
    obtain ⟨trees, result⟩ := expect_delivers consistent fits counts overflow rare
    exact ⟨⟨fits.substates_eq, trees⟩, result⟩

omit [Scalar α] in
/-- A model in the frames of a consistent one is consistent if its tables fit. -/
theorem consistent_of_frames (consistent : model.Consistent categories root) {next : Model α}
    (grammar : next.grammar.toGrammarFrame = model.grammar.toGrammarFrame)
    (rules : next.grammar.rules.Fits model.grammar.substates)
    (lexicon : next.lexicon.toLexiconFrame = model.lexicon.toLexiconFrame)
    (tables : next.lexicon.tables.Fits model.lexicon.substates) :
    next.Consistent categories root := by
  have substates : next.grammar.substates = model.grammar.substates := congrArg (·.substates) grammar
  have sameRoot : next.grammar.root = model.grammar.root := congrArg (·.root) grammar
  have ancestry : next.grammar.ancestry = model.grammar.ancestry := congrArg (·.ancestry) grammar
  have lexiconSubstates : next.lexicon.substates = model.lexicon.substates :=
    congrArg (·.substates) lexicon
  have lexiconRoot : next.lexicon.root = model.lexicon.root := congrArg (·.root) lexicon
  have lexiconAncestry : next.lexicon.ancestry = model.lexicon.ancestry :=
    congrArg (·.ancestry) lexicon
  exact {
    categories_eq := by rw [substates]; exact consistent.categories_eq
    root_eq := sameRoot.trans consistent.root_eq
    single := by rw [substates]; exact consistent.single
    positive := by rw [substates]; exact consistent.positive
    ancestry := by rw [ancestry, substates]; exact consistent.ancestry
    rules := by rw [substates]; exact rules
    substates_eq := by rw [lexiconSubstates, substates]; exact consistent.substates_eq
    lexiconRoot_eq := by rw [lexiconRoot, sameRoot]; exact consistent.lexiconRoot_eq
    ancestry_eq := by rw [lexiconAncestry, ancestry]; exact consistent.ancestry_eq
    tables := by rw [lexiconSubstates]; exact tables }

theorem maximize_delivers (consistent : model.Consistent categories root)
    {expectation : Expectation α} (inFrame : expectation.InFrame model)
    (overflow : allowed .overflow) :
    Delivers allowed
      (fun next => next.1.Consistent categories root ∧ next.1.substates = model.substates)
      (maximize model expectation) := by
  obtain ⟨rules, emissions⟩ := inFrame
  have finish (grammar : Grammar α)
      (frame : grammar.toGrammarFrame = model.grammar.toGrammarFrame)
      (fits : grammar.rules.Fits model.grammar.substates) :
      (⟨grammar, expectation.emissions.estimate⟩ : Model α).Consistent categories root ∧
        grammar.substates = model.substates :=
    ⟨consistent_of_frames consistent frame fits emissions.frame_eq emissions.fits,
      congrArg (·.substates) frame⟩
  unfold maximize
  cases known : expectation.rules with
  | none => exact finish model.grammar rfl consistent.rules
  | some counts =>
    exact (RuleCounts.normalize_delivers (rules counts known) consistent.ancestry overflow).bind
      fun grammar ⟨frame, fits⟩ => finish grammar frame fits

theorem reestimate_sound (consistent : model.Consistent categories root)
    (fits : forest.Fits model.substates) (overflow : allowed .overflow) (rare : α)
    (withRules : Bool) :
    let pass := expectAfresh model rare forest withRules
    Pass.Sound allowed model.substates
      (fun next : Model α × Outcome α => next.1.Consistent categories root ∧
        next.1.substates = model.substates)
      (pass.1, pass.2.bind (maximize model)) := by
  obtain ⟨trees, counts⟩ := expectAfresh_sound consistent fits overflow rare withRules
  exact ⟨trees, counts.bind fun expectation inFrame => maximize_delivers consistent inFrame overflow⟩

theorem nextModel_sound (consistent : model.Consistent categories root)
    (fits : forest.Fits model.substates) (overflow : allowed .overflow) (rare : α) :
    (nextModel model rare forest).Sound allowed model.substates
      fun next => next.1.Consistent categories root ∧ next.1.substates = model.substates :=
  reestimate_sound consistent fits overflow rare true

theorem nextLexicon_sound (consistent : model.Consistent categories root)
    (fits : forest.Fits model.substates) (overflow : allowed .overflow) (rare : α) :
    (nextLexicon model rare forest).Sound allowed model.substates
      fun next => next.1.Consistent categories root ∧ next.1.substates = model.substates :=
  reestimate_sound consistent fits overflow rare false

end Training

end LatentGrammar
