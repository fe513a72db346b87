import LatentGrammar.Proofs.Counting.Evaluation
import LatentGrammar.Proofs.HeldOut.Likelihood

namespace LatentGrammar

variable {α : Type}

/-- What re-estimation leaves as it is. -/
def Model.frames (model : Model α) : GrammarFrame α × LexiconFrame α :=
  (model.grammar.toGrammarFrame, model.lexicon.toLexiconFrame)

theorem Model.substates_eq_of_frames {model other : Model α} (same : model.frames = other.frames) :
    model.substates = other.substates :=
  congrArg (·.1.substates) same

variable [Scalar α]

namespace RuleCounts

variable {counts : RuleCounts α} {frame : GrammarFrame α}

theorem countScoredTop_frame (same : counts.toGrammarFrame = frame) (previous : Grammar α) (mass : α)
    (scale : Int) (tree : LatentTree α) :
    Delivers Any (·.toGrammarFrame = frame) (countScoredTop previous mass scale counts tree) := by
  cases tree with
  | preterminal => exact same
  | unary state scores child =>
    simp only [countScoredTop, LatentTree.rule?]
    cases previous.rule? (.unary state child.state) with
    | none => exact same
    | some rule => exact (delivers_any _).bind fun _ _ => (delivers_any _).bind fun _ _ => same
  | binary state scores left right =>
    simp only [countScoredTop, LatentTree.rule?]
    cases previous.rule? (.binary state left.state right.state) with
    | none => exact same
    | some rule => exact (delivers_any _).bind fun _ _ => (delivers_any _).bind fun _ _ => same

theorem countScored_frame (same : counts.toGrammarFrame = frame) (previous : Grammar α)
    (tree : LatentTree α) :
    Delivers Any (·.toGrammarFrame = frame) (counts.countScored previous tree) := by
  refine (delivers_any _).bind fun mass _ => Delivers.ite (fun _ => same) fun _ => ?_
  exact Delivers.foldlM same fun _ node _ same => countScoredTop_frame same previous mass _ node

end RuleCounts

namespace EmissionCounts

variable {counts : EmissionCounts α} {frame : LexiconFrame α}

theorem add_frame (same : counts.toLexiconFrame = frame) (policy : UnseenPolicy α) (state : Nat)
    (word : String) (position : Nat) (weights : List α) :
    Delivers Any (·.toLexiconFrame = frame) (counts.add policy state word position weights) := by
  refine (delivers_any _).bind fun _ _ => (delivers_any _).bind fun _ _ => ?_
  refine Delivers.ite (fun _ => ?_) fun _ => same
  exact (delivers_any _).bind fun _ _ => (delivers_any _).bind fun _ _ => same

theorem countScored_frame (same : counts.toLexiconFrame = frame) (policy : UnseenPolicy α)
    (tree : LatentTree α) :
    Delivers Any (·.toLexiconFrame = frame) (counts.countScored policy tree) :=
  countScored_keeps (delivers_any _) same fun _ _ _ _ state word _ position _ same =>
    add_frame same policy state word position _

theorem tieRare_frame (counts : EmissionCounts α) (rare : α) :
    Delivers Any (·.toLexiconFrame = counts.toLexiconFrame) (counts.tieRare rare) :=
  (delivers_any _).bind fun _ _ => rfl

end EmissionCounts

namespace LatentTree

variable {tree scored : LatentTree α}

theorem fillOutside_skeleton {grammar : Grammar α} {outside : ScaledVector α}
    (success : tree.fillOutside grammar outside = .ok scored) : scored.skeleton = tree.skeleton := by
  induction tree generalizing scored outside with
  | preterminal state word scores =>
    obtain rfl := Except.ok.inj success
    rfl
  | unary state scores child ih =>
    obtain ⟨values, -, success⟩ := bind_eq_ok_iff.mp success
    obtain ⟨inner, below, done⟩ := bind_eq_ok_iff.mp success
    obtain rfl := Except.ok.inj done
    simp only [skeleton, ih below]
  | binary state scores left right leftIh rightIh =>
    obtain ⟨leftValues, -, success⟩ := bind_eq_ok_iff.mp success
    obtain ⟨rightValues, -, success⟩ := bind_eq_ok_iff.mp success
    obtain ⟨innerLeft, leftBelow, success⟩ := bind_eq_ok_iff.mp success
    obtain ⟨innerRight, rightBelow, done⟩ := bind_eq_ok_iff.mp success
    obtain rfl := Except.ok.inj done
    simp only [skeleton, leftIh leftBelow, rightIh rightBelow]

theorem computeBoth_skeleton {model : Model α} (success : tree.computeBoth model = .ok scored) :
    scored.skeleton = tree.skeleton := by
  obtain ⟨filled, inside, outside⟩ := bind_eq_ok_iff.mp success
  exact (fillOutside_skeleton outside).trans (computeInside_skeleton inside)

end LatentTree

/-- A step that scores a tree both ways, and then takes it as it is. -/
theorem Forest.sweep_skeletons_of_computeBoth {β : Type} {model : Model α}
    {step : Nat → LatentTree α → β → Except Fault (LatentTree α × β)}
    (scores : ∀ index tree result next, step index tree result = .ok next →
      tree.computeBoth model = .ok next.1)
    (index : Nat) (trees : List (LatentTree α)) (start : β) :
    (sweep step index trees start).trees.map LatentTree.skeleton =
      trees.map LatentTree.skeleton :=
  sweep_skeletons (fun index tree result next done =>
    LatentTree.computeBoth_skeleton (scores index tree result next done)) index trees start

namespace Model

variable {model : Model α} {forest : Forest α} {weights : List (List α)}

theorem weighTree_scores {tree : LatentTree α} {next : LatentTree α × List (List α)}
    (done : model.weighTree tree weights = .ok next) : tree.computeBoth model = .ok next.1 := by
  obtain ⟨scored, computed, done⟩ := bind_eq_ok_iff.mp done
  obtain ⟨mass, -, done⟩ := bind_eq_ok_iff.mp done
  split at done
  · obtain ⟨rows, -, done⟩ := bind_eq_ok_iff.mp done
    obtain ⟨weights, -, done⟩ := bind_eq_ok_iff.mp done
    obtain rfl := Except.ok.inj done
    exact computed
  · obtain rfl := Except.ok.inj done
    exact computed

theorem judgeTree_scores {tree : LatentTree α} {candidates : List (SiblingPair α)}
    {next : LatentTree α × List (SiblingPair α)}
    (done : model.judgeTree weights tree candidates = .ok next) :
    tree.computeBoth model = .ok next.1 := by
  obtain ⟨scored, computed, done⟩ := bind_eq_ok_iff.mp done
  obtain ⟨mass, -, done⟩ := bind_eq_ok_iff.mp done
  split at done
  · obtain ⟨candidates, -, done⟩ := bind_eq_ok_iff.mp done
    obtain rfl := Except.ok.inj done
    exact computed
  · obtain rfl := Except.ok.inj done
    exact computed

theorem mergeWeights_skeletons (model : Model α) (forest : Forest α) :
    (Training.Pass.ofSweep forest (model.mergeWeights forest)).1.skeletons = forest.skeletons := by
  unfold mergeWeights
  cases model.substates.mapM (fill · (0 : α)) with
  | error fault => rfl
  | ok zeros =>
    exact Forest.sweep_skeletons_of_computeBoth (fun _ _ _ _ done => weighTree_scores done) 0
      forest.trees zeros

theorem mergeLosses_skeletons (model : Model α) (forest : Forest α) (weights : List (List α)) :
    (Training.Pass.ofSweep forest (model.mergeLosses forest weights)).1.skeletons =
      forest.skeletons := by
  unfold mergeLosses
  dsimp only
  split
  · exact Forest.sweep_skeletons_of_computeBoth (fun _ _ _ _ done => judgeTree_scores done) 0
      forest.trees _
  · rfl

end Model

namespace Training

variable {model : Model α} {expectation : Expectation α}

/-- What is gathered has the frames of the model. -/
structure Expectation.HasFrames (expectation : Expectation α) (model : Model α) : Prop where
  rules : ∀ rules, expectation.rules = some rules →
    rules.toGrammarFrame = model.grammar.toGrammarFrame
  emissions : expectation.emissions.toLexiconFrame = model.lexicon.toLexiconFrame

theorem Expectation.HasFrames.expectTree (has : expectation.HasFrames model) (rare : α)
    (size index : Nat) (tree : LatentTree α) :
    Delivers Any (·.2.HasFrames model) (expectTree model rare size index tree expectation) := by
  refine (delivers_any _).bind fun scored _ => (delivers_any _).bind fun mass _ => ?_
  refine Delivers.ite (fun _ => ?_) fun _ => ⟨has.rules, has.emissions⟩
  refine (EmissionCounts.countScored_frame has.emissions _ scored).bind fun emissions lexical => ?_
  have counted : Delivers Any (fun counts => ∀ rules, counts = some rules →
        rules.toGrammarFrame = model.grammar.toGrammarFrame)
      (expectation.rules.mapM (·.countScored model.grammar scored)) :=
    Delivers.mapM_option fun rules known =>
      RuleCounts.countScored_frame (has.rules rules known) _ scored
  exact counted.bind fun _ grammatical => (delivers_any _).bind fun _ _ => ⟨grammatical, lexical⟩

theorem expectTree_scores {rare : α} {size index : Nat} {tree : LatentTree α}
    {next : LatentTree α × Expectation α}
    (done : expectTree model rare size index tree expectation = .ok next) :
    tree.computeBoth model = .ok next.1 := by
  obtain ⟨scored, computed, done⟩ := bind_eq_ok_iff.mp done
  obtain ⟨mass, -, done⟩ := bind_eq_ok_iff.mp done
  split at done
  · obtain ⟨emissions, -, done⟩ := bind_eq_ok_iff.mp done
    obtain ⟨rules, -, done⟩ := bind_eq_ok_iff.mp done
    obtain ⟨logLikelihood, -, done⟩ := bind_eq_ok_iff.mp done
    obtain rfl := Except.ok.inj done
    exact computed
  · obtain rfl := Except.ok.inj done
    exact computed

theorem countsAfter_hasFrames (model : Model α) (withRules : Bool) :
    Delivers Any (fun counts => (⟨.start, counts.1, counts.2⟩ : Expectation α).HasFrames model)
      (countsAfter model withRules) := by
  have gathered (start : Option (RuleCounts α)) (grammatical : ∀ rules, start = some rules →
        rules.toGrammarFrame = model.grammar.toGrammarFrame) :
      Delivers Any (fun counts => (⟨.start, counts.1, counts.2⟩ : Expectation α).HasFrames model)
        (do return (start, ← EmissionCounts.after model.lexicon)) := by
    have lexical : Delivers Any (·.toLexiconFrame = model.lexicon.toLexiconFrame)
        (EmissionCounts.after model.lexicon) := (delivers_any _).bind fun _ _ => rfl
    exact lexical.bind fun emissions same => ⟨grammatical, same⟩
  cases withRules with
  | false => exact gathered none fun _ absent => nomatch absent
  | true =>
    unfold countsAfter
    cases begun : RuleCounts.after model.grammar with
    | error fault => trivial
    | ok counts =>
      refine gathered (some counts) fun rules same => ?_
      obtain rfl := Option.some.inj same
      obtain ⟨_, -, done⟩ := bind_eq_ok_iff.mp begun
      obtain rfl := Except.ok.inj done
      rfl

theorem expectAfresh_hasFrames (model : Model α) (rare : α) (forest : Forest α) (withRules : Bool) :
    Delivers Any (·.HasFrames model) (expectAfresh model rare forest withRules).2 := by
  have begun := countsAfter_hasFrames model withRules
  unfold expectAfresh
  cases started : countsAfter model withRules with
  | error fault => trivial
  | ok start =>
    rw [started] at begun
    rw [Pass.ofSweep_snd, expect_conclusion]
    have each (index : Nat) (tree : LatentTree α) (expectation : Expectation α) (_ : True)
        (has : expectation.HasFrames model) :
        Delivers Any (fun next => True ∧ next.2.HasFrames model)
          (expectTree model rare forest.size index tree expectation) :=
      (has.expectTree rare forest.size index tree).mono fun _ kept => ⟨trivial, kept⟩
    have swept : Delivers Any (·.HasFrames model)
        (expectTrees model rare forest start.1 start.2).conclusion :=
      (Forest.sweep_delivers each (fun _ _ => trivial) begun 0).2
    exact swept.bind fun expectation has =>
      (EmissionCounts.tieRare_frame expectation.emissions rare).bind fun _ same =>
        ⟨has.rules, same.trans has.emissions⟩

theorem expectAfresh_skeletons (model : Model α) (rare : α) (forest : Forest α)
    (withRules : Bool) :
    (expectAfresh model rare forest withRules).1.skeletons = forest.skeletons := by
  unfold expectAfresh
  cases countsAfter model withRules with
  | error fault => rfl
  | ok start =>
    have kept : (expectTrees model rare forest start.1 start.2).trees.map LatentTree.skeleton =
        forest.skeletons :=
      Forest.sweep_skeletons_of_computeBoth (fun _ _ _ _ done => expectTree_scores done) 0
        forest.trees _
    show (expect model rare forest start.1 start.2).trees.map LatentTree.skeleton = _
    rw [← kept]
    unfold expect
    dsimp only
    split
    · rfl
    · split <;> rfl

theorem Expectation.HasFrames.maximize (has : expectation.HasFrames model) :
    Delivers Any (·.1.frames = model.frames) (maximize model expectation) := by
  unfold Training.maximize
  cases known : expectation.rules with
  | none => exact Prod.ext rfl has.emissions
  | some rules =>
    have normalized : Delivers Any (·.toGrammarFrame = rules.toGrammarFrame) rules.normalize :=
      (delivers_any _).bind fun _ _ => (delivers_any _).bind fun _ _ => rfl
    exact normalized.bind fun grammar same =>
      Prod.ext (same.trans (has.rules rules known)) has.emissions

theorem nextModel_frames (model : Model α) (rare : α) (forest : Forest α) :
    Delivers Any (·.1.frames = model.frames) (nextModel model rare forest).2 :=
  (expectAfresh_hasFrames model rare forest true).bind fun _ has => has.maximize

theorem nextLexicon_frames (model : Model α) (rare : α) (forest : Forest α) :
    Delivers Any (·.1.frames = model.frames) (nextLexicon model rare forest).2 :=
  (expectAfresh_hasFrames model rare forest false).bind fun _ has => has.maximize

theorem nextModel_skeletons (model : Model α) (rare : α) (forest : Forest α) :
    (nextModel model rare forest).1.skeletons = forest.skeletons :=
  expectAfresh_skeletons model rare forest true

theorem nextLexicon_skeletons (model : Model α) (rare : α) (forest : Forest α) :
    (nextLexicon model rare forest).1.skeletons = forest.skeletons :=
  expectAfresh_skeletons model rare forest false

end Training

end LatentGrammar
