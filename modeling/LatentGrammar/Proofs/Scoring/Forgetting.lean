import LatentGrammar.Proofs.Consistency.Run
import LatentGrammar.Proofs.Scoring.Overwriting

namespace LatentGrammar

namespace Forest

variable {α β : Type} {step : Nat → LatentTree α → β → Except Fault (LatentTree α × β)}

theorem sweep_keeps {whole : LatentTree α → Prop}
    (keeps : ∀ index tree result next, step index tree result = .ok next → whole tree →
      whole next.1)
    {trees : List (LatentTree α)} (all : ∀ tree ∈ trees, whole tree) (index : Nat) (start : β) :
    ∀ tree ∈ (sweep step index trees start).trees, whole tree := by
  have each (index : Nat) (tree : LatentTree α) (result : β) (holds : whole tree) (_ : True) :
      Delivers Any (fun next => whole next.1 ∧ True) (step index tree result) :=
    (delivers_any _).mono_ok fun next done _ => ⟨keeps index tree result next done holds, trivial⟩
  exact (sweep_delivers each all trivial index).1

/-- A sweep does not get past a tree that cannot be handled; that tree and all behind it stay as they
are. -/
theorem sweep_spares {before after : List (LatentTree α)} {tree : LatentTree α}
    (broken : ∀ index result, ∃ fault, step index tree result = .error fault) (index : Nat)
    (start : β) :
    ∃ scored, scored.length = before.length ∧
      (sweep step index (before ++ tree :: after) start).trees = scored ++ tree :: after := by
  induction before generalizing index start with
  | nil =>
    obtain ⟨fault, stopped⟩ := broken index start
    exact ⟨[], rfl, by rw [List.nil_append, sweep, stopped]⟩
  | cons first rest ih =>
    rw [List.cons_append, sweep]
    cases step index first start with
    | error fault => exact ⟨first :: rest, rfl, rfl⟩
    | ok next =>
      obtain ⟨scored, length, kept⟩ := ih (index + 1) next.2
      exact ⟨next.1 :: scored, congrArg (· + 1) length, congrArg (next.1 :: ·) kept⟩

end Forest

variable {α : Type} [Scalar α]

namespace LatentTree

variable {substates : List Nat} {tree old used : LatentTree α} {model : Model α}

theorem resize_fits (success : old.resize substates = .ok tree) : tree.Fits substates := by
  induction old generalizing tree with
  | preterminal state word scores =>
    obtain ⟨size, found, success⟩ := bind_eq_ok_iff.mp success
    obtain ⟨fresh, made, done⟩ := bind_eq_ok_iff.mp success
    obtain rfl := Except.ok.inj done
    exact fits_preterminal.mpr (fits_of_zeros (fetch_eq_ok_iff.mp found) made)
  | unary state scores child ih =>
    obtain ⟨size, found, success⟩ := bind_eq_ok_iff.mp success
    obtain ⟨fresh, made, success⟩ := bind_eq_ok_iff.mp success
    obtain ⟨inner, below, done⟩ := bind_eq_ok_iff.mp success
    obtain rfl := Except.ok.inj done
    exact fits_unary.mpr ⟨fits_of_zeros (fetch_eq_ok_iff.mp found) made, ih below⟩
  | binary state scores left right leftIh rightIh =>
    obtain ⟨size, found, success⟩ := bind_eq_ok_iff.mp success
    obtain ⟨fresh, made, success⟩ := bind_eq_ok_iff.mp success
    obtain ⟨innerLeft, leftBelow, success⟩ := bind_eq_ok_iff.mp success
    obtain ⟨innerRight, rightBelow, done⟩ := bind_eq_ok_iff.mp success
    obtain rfl := Except.ok.inj done
    exact fits_binary.mpr
      ⟨fits_of_zeros (fetch_eq_ok_iff.mp found) made, leftIh leftBelow, rightIh rightBelow⟩

/-- The tree was just built from a binary tree, or given fresh scores. -/
inductive Fresh (tree : LatentTree α) : Prop where
  | built {substates : List Nat} {vocabulary : Vocabulary} {source : Tree}
      (made : ofTree substates vocabulary source = .ok tree)
  | resized {substates : List Nat} {old : LatentTree α} (made : old.resize substates = .ok tree)

/-- Trees that were fresh once and have been scored by consistent models since. -/
def InUse (tree : LatentTree α) : Prop :=
  ∃ fresh : LatentTree α, fresh.Fresh ∧
    fresh.Worn (fun model => ∃ categories root, model.Consistent categories root) tree

/-- Vectors keep the sizes that they were made with. -/
theorem InUse.exists_fits (inUse : tree.InUse) : ∃ substates, tree.Fits substates := by
  obtain ⟨fresh, isFresh, worn⟩ := inUse
  have start : ∃ substates, fresh.Fits substates := by
    cases isFresh with
    | built made => exact ⟨_, ofTree_fits made⟩
    | resized made => exact ⟨_, resize_fits made⟩
  obtain ⟨substates, fits⟩ := start
  refine ⟨substates, ?_⟩
  induction worn with
  | unscored => exact fits
  | inside _ consistent success ih =>
    obtain ⟨categories, root, consistent⟩ := consistent
    have alike := computeInside_of_agrees consistent ih (agrees_of_computeInside success)
    exact (alike.of_ok success).fits ih
  | both _ consistent success ih =>
    obtain ⟨categories, root, consistent⟩ := consistent
    obtain ⟨inner, inside, -⟩ := bind_eq_ok_iff.mp success
    have alike := computeBoth_of_agrees consistent ih (agrees_of_computeInside inside)
    exact (alike.of_ok success).fits ih

theorem exists_resize (fits : tree.Fits substates) : ∃ fresh, tree.resize substates = .ok fresh := by
  have zeros {state : Nat} {scores : NodeScores α} (fits : scores.Fits substates state) :
      ∃ fresh, (fetch substates state >>= NodeScores.zeros : Except Fault (NodeScores α)) =
        .ok fresh := by
    obtain ⟨fresh, made⟩ := exists_zeros ⟨scores, fits⟩ fits.inside
    exact ⟨fresh, by rw [fetch_eq_ok_iff.mpr fits.inside, ok_bind, made]⟩
  induction tree with
  | preterminal state word scores =>
    obtain ⟨fresh, made⟩ := zeros (fits_preterminal.mp fits)
    exact ⟨_, by rw [resize, ← bind_assoc, made]; rfl⟩
  | unary state scores child ih =>
    obtain ⟨top, below⟩ := fits_unary.mp fits
    obtain ⟨fresh, made⟩ := zeros top
    obtain ⟨inner, done⟩ := ih below
    exact ⟨_, by rw [resize, ← bind_assoc, made, ok_bind, done]; rfl⟩
  | binary state scores left right leftIh rightIh =>
    obtain ⟨top, leftBelow, rightBelow⟩ := fits_binary.mp fits
    obtain ⟨fresh, made⟩ := zeros top
    obtain ⟨innerLeft, leftDone⟩ := leftIh leftBelow
    obtain ⟨innerRight, rightDone⟩ := rightIh rightBelow
    exact ⟨_, by rw [resize, ← bind_assoc, made, ok_bind, leftDone, ok_bind, rightDone]; rfl⟩

/-- Two trees come to the same inside scores, and to the same scores altogether if they are scored
both ways; inside scoring leaves the outside scores as they are. -/
structure Overwrites (model : Model α) (one two : LatentTree α) : Prop where
  inside : ∀ first second, one.computeInside model = .ok first →
    two.computeInside model = .ok second → first.insideOnly = second.insideOnly
  both : ∀ first second, one.computeBoth model = .ok first →
    two.computeBoth model = .ok second → first = second
  outside : ∀ scored, one.computeInside model = .ok scored → scored.outsideOnly = one.outsideOnly

/-- Scoring faults at the first node whose substates are not those of the model. If there is none,
and all categories are categories of the model, the tree is scored. -/
structure Judged (model : Model α) (tree : LatentTree α) : Prop where
  refused : ∀ node, tree.subtrees.find? (Disagrees model) = some node →
    tree.computeInside model = .error (mismatch model node) ∧
      tree.computeBoth model = .error (mismatch model node)
  scored : tree.subtrees.find? (Disagrees model) = none →
    (∀ node ∈ tree.subtrees, node.state < model.substates.length) →
    (∃ inside, tree.computeInside model = .ok inside) ∧ ∃ both, tree.computeBoth model = .ok both
  wellFormed : ∀ cause, tree.computeInside model ≠ .error (.malformedTree cause) ∧
    tree.computeBoth model ≠ .error (.malformedTree cause)

theorem computeInside_of_find? {node : LatentTree α}
    (found : tree.subtrees.find? (Disagrees model) = some node) :
    tree.computeInside model = .error (mismatch model node) := by
  rw [computeInside, checkSubstates_eq_find?, found]
  rfl

theorem computeBoth_of_find? {node : LatentTree α}
    (found : tree.subtrees.find? (Disagrees model) = some node) :
    tree.computeBoth model = .error (mismatch model node) := by
  rw [computeBoth, computeInside_of_find? found]
  rfl

theorem overwrites (model : Model α) {one two : LatentTree α} (oneInUse : one.InUse)
    (twoInUse : two.InUse) (same : one.skeleton = two.skeleton) : Overwrites model one two := by
  obtain ⟨_, fits⟩ := oneInUse.exists_fits
  obtain ⟨_, others⟩ := twoInUse.exists_fits
  have alike {first second : LatentTree α} (inside : one.computeInside model = .ok first)
      (other : two.computeInside model = .ok second) : one.Alike two :=
    alike_of_agrees same fits others (agrees_of_computeInside inside) (agrees_of_computeInside other)
  exact {
    inside := by
      intro first second inside other
      have scores := computeInside_congr (alike inside other) model
      rw [SameInside, inside, other] at scores
      exact Except.ok.inj scores
    both := by
      intro first second done other
      obtain ⟨_, inside, -⟩ := bind_eq_ok_iff.mp done
      obtain ⟨_, inside', -⟩ := bind_eq_ok_iff.mp other
      rw [computeBoth_congr (alike inside inside'), other] at done
      exact (Except.ok.inj done).symm
    outside := fun scored => computeInside_outsideOnly }

theorem judged {categories root : Nat} (consistent : model.Consistent categories root)
    (inUse : tree.InUse) : Judged model tree := by
  obtain ⟨_, fits⟩ := inUse.exists_fits
  exact {
    refused := fun node found => ⟨computeInside_of_find? found, computeBoth_of_find? found⟩
    scored := by
      intro none known
      have whole := (find?_disagrees_eq_none_iff.mp none).fits fits known
      obtain ⟨inside, success, -⟩ :=
        delivers_never_iff.mp (Training.computeInside_fits consistent whole)
      obtain ⟨both, done, -⟩ := delivers_never_iff.mp (Training.computeBoth_fits consistent whole)
      exact ⟨⟨inside, success⟩, both, done⟩
    wellFormed := by
      intro cause
      cases found : tree.subtrees.find? (Disagrees model) with
      | some node =>
        rw [computeInside_of_find? found, computeBoth_of_find? found]
        exact ⟨nofun, nofun⟩
      | none =>
        have agrees := find?_disagrees_eq_none_iff.mp found
        constructor
        · intro broken
          have fault := computeInside_of_agrees consistent fits agrees
          rw [broken] at fault
          cases fault
        · intro broken
          have fault := computeBoth_of_agrees consistent fits agrees
          rw [broken] at fault
          cases fault }

end LatentTree

namespace Training

variable {substates : List Nat} {model : Model α} {forest used fresh : Forest α}
  {categories root : Nat}

/-- What is done with a forest over and over in the course of a run. -/
inductive Scan (α : Type) where
  | evaluate
  | expect (rare : α) (withRules : Bool)
  | weigh
  | judge (weights : List (List α))

/-- The forest that a scan leaves behind, whatever it comes to. -/
def Scan.leaves (model : Model α) (forest : Forest α) : Scan α → Forest α
  | evaluate => (Training.evaluate model forest).1
  | expect rare withRules => (expectAfresh model rare forest withRules).1
  | weigh => (Pass.ofSweep forest (model.mergeWeights forest)).1
  | judge weights => (Pass.ofSweep forest (model.mergeLosses forest weights)).1

/-- Forests that were made for some numbers of substates, and scanned any number of times since,
under any consistent models of these substates. -/
inductive InUse (substates : List Nat) : Forest α → Prop where
  | built {sources : List Tree} {vocabulary : Vocabulary} {forest : Forest α}
      (made : Forest.ofTrees sources substates vocabulary = .ok forest) : InUse substates forest
  | resized {old forest : Forest α} (made : old.resize substates = .ok forest) :
    InUse substates forest
  | scanned {forest : Forest α} {model : Model α} {categories root : Nat}
      (inUse : InUse substates forest) (consistent : model.Consistent categories root)
      (sized : model.substates = substates) (scan : Scan α) :
    InUse substates (scan.leaves model forest)

theorem fits_of_resize {old : Forest α} (made : old.resize substates = .ok forest) :
    forest.Fits substates := by
  obtain ⟨trees, each, done⟩ := bind_eq_ok_iff.mp made
  obtain rfl := Except.ok.inj done
  refine ⟨rfl, fun tree member => ?_⟩
  obtain ⟨source, -, resized⟩ := exists_mem_of_forall₂ (forall₂_of_mapM each).flip member
  exact LatentTree.resize_fits resized

/-- Losses may be reckoned with any weights; the trees keep their sizes. -/
theorem mergeLosses_fits (consistent : model.Consistent categories root)
    (fits : forest.Fits model.substates) (weights : List (List α)) :
    (Pass.ofSweep forest (model.mergeLosses forest weights)).1.Fits model.substates := by
  refine ⟨fits.substates_eq, ?_⟩
  unfold Model.mergeLosses
  dsimp only
  split
  · refine Forest.sweep_keeps (fun _ tree _ next done treeFits => ?_) fits.trees 0 _
    have scored : Delivers Any (·.Fits model.substates) (tree.computeBoth model) :=
      computeBoth_fits consistent treeFits
    exact scored.of_ok (Model.judgeTree_scores done)
  · exact fits.trees

theorem Scan.leaves_fits (consistent : model.Consistent categories root)
    (fits : forest.Fits model.substates) (scan : Scan α) :
    (scan.leaves model forest).Fits model.substates := by
  cases scan with
  | evaluate =>
    have sound : (Training.evaluate model forest).Sound Any model.substates fun _ => True :=
      evaluate_sound consistent fits
    exact sound.1
  | expect rare withRules => exact (expectAfresh_sound consistent fits any_overflow rare withRules).1
  | weigh => exact (Model.mergeWeights_sound consistent fits any_overflow).1
  | judge weights => exact mergeLosses_fits consistent fits weights

theorem InUse.fits (inUse : InUse substates forest) : forest.Fits substates := by
  induction inUse with
  | built made => exact Forest.ofTrees_fits made
  | resized made => exact fits_of_resize made
  | scanned _ consistent sized scan ih =>
    rw [← sized] at ih ⊢
    exact scan.leaves_fits consistent ih

/-- Nothing that a model is used for tells the two forests apart. -/
structure Indistinguishable (model : Model α) (used fresh : Forest α) : Prop where
  evaluate : (Training.evaluate model used).2 = (Training.evaluate model fresh).2
  expect : ∀ rare withRules, (expectAfresh model rare used withRules).2 =
    (expectAfresh model rare fresh withRules).2
  nextModel : ∀ rare, (Training.nextModel model rare used).2 =
    (Training.nextModel model rare fresh).2
  nextLexicon : ∀ rare, (Training.nextLexicon model rare used).2 =
    (Training.nextLexicon model rare fresh).2
  weights : (Pass.ofSweep used (model.mergeWeights used)).2 =
    (Pass.ofSweep fresh (model.mergeWeights fresh)).2
  losses : ∀ weights, (Pass.ofSweep used (model.mergeLosses used weights)).2 =
    (Pass.ofSweep fresh (model.mergeLosses fresh weights)).2

/-- A sweep that scores every tree both ways comes to the same over trees that are alike. -/
theorem conclusion_congr {β : Type}
    {step : Nat → LatentTree α → β → Except Fault (LatentTree α × β)}
    (each : ∀ index tree other result, tree.computeBoth model = other.computeBoth model →
      step index tree result = step index other result)
    {trees others : List (LatentTree α)} (alike : List.Forall₂ LatentTree.Alike trees others)
    (index : Nat) (start : β) :
    (Forest.sweep step index trees start).conclusion =
      (Forest.sweep step index others start).conclusion := by
  obtain ⟨result, fault⟩ := Forest.sweep_congr (fun index tree other result alike => congrArg _
    (each index tree other result (LatentTree.computeBoth_congr alike model))) alike index start
  rw [Forest.Sweep.conclusion, Forest.Sweep.conclusion, result, fault]

theorem expectAfresh_congr (alike : List.Forall₂ LatentTree.Alike used.trees fresh.trees)
    (model : Model α) (rare : α) (withRules : Bool) :
    (expectAfresh model rare used withRules).2 = (expectAfresh model rare fresh withRules).2 := by
  unfold expectAfresh
  cases countsAfter model withRules with
  | error fault => rfl
  | ok start =>
    dsimp only
    rw [Pass.ofSweep_snd, Pass.ofSweep_snd, expect_conclusion, expect_conclusion, expectTrees,
      expectTrees, show used.size = fresh.size from alike.length_eq,
      conclusion_congr (fun _ _ _ _ same => by rw [expectTree, same]; rfl) alike]

theorem indistinguishable (same : used.skeletons = fresh.skeletons) (fits : used.Fits substates)
    (others : fresh.Fits substates) (model : Model α) : Indistinguishable model used fresh := by
  have alike := Forest.forall₂_alike same fits others
  have expected := expectAfresh_congr alike model
  exact {
    evaluate := evaluate_congr same fits others model
    expect := expected
    nextModel := fun rare => congrArg (·.bind (maximize model)) (expected rare true)
    nextLexicon := fun rare => congrArg (·.bind (maximize model)) (expected rare false)
    weights := by
      rw [Pass.ofSweep_snd, Pass.ofSweep_snd, Model.mergeWeights, Model.mergeWeights]
      cases model.substates.mapM (fill · (0 : α)) with
      | error fault => rfl
      | ok zeros =>
        exact conclusion_congr (fun _ _ _ _ same => by rw [Model.weighTree, same]; rfl) alike 0 zeros
    losses := by
      intro weights
      rw [Pass.ofSweep_snd, Pass.ofSweep_snd, Model.mergeLosses, Model.mergeLosses]
      split
      · exact conclusion_congr (fun _ _ _ _ same => by rw [Model.judgeTree, same]; rfl) alike 0 _
      · rfl }

theorem exists_resize (fits : forest.Fits substates) :
    ∃ fresh, forest.resize substates = .ok fresh := by
  have each : Delivers Never (fun trees => ∀ tree ∈ trees, tree.Fits substates)
      (forest.trees.mapM (LatentTree.resize substates)) := by
    refine Delivers.mapM_forall fun tree member => ?_
    obtain ⟨fresh, done⟩ := LatentTree.exists_resize (fits.trees tree member)
    exact delivers_never_iff.mpr ⟨fresh, done, LatentTree.resize_fits done⟩
  obtain ⟨trees, done, -⟩ := delivers_never_iff.mp each
  exact ⟨_, by rw [Forest.resize, done]; rfl⟩

theorem expect_trees (model : Model α) (rare : α) (forest : Forest α)
    (rules : Option (RuleCounts α)) (emissions : EmissionCounts α) :
    (expect model rare forest rules emissions).trees =
      (expectTrees model rare forest rules emissions).trees := by
  unfold expect
  dsimp only
  split
  · rfl
  · split <;> rfl

/-- No scan touches a tree that is refused, or a tree behind it. -/
theorem Scan.leaves_refused {before after : List (LatentTree α)} {tree node : LatentTree α}
    (found : tree.subtrees.find? (LatentTree.Disagrees model) = some node) (substates : List Nat)
    (scan : Scan α) :
    ∃ scored, scored.length = before.length ∧
      (scan.leaves model ⟨before ++ tree :: after, substates⟩).trees = scored ++ tree :: after := by
  have inside := LatentTree.computeInside_of_find? found
  have both := LatentTree.computeBoth_of_find? found
  cases scan with
  | evaluate =>
    exact Forest.sweep_spares (fun _ _ => ⟨_, by rw [evaluateTree, inside]; rfl⟩) 0 _
  | expect rare withRules =>
    rw [leaves, expectAfresh]
    cases countsAfter model withRules with
    | error fault => exact ⟨before, rfl, rfl⟩
    | ok start =>
      dsimp only [Pass.ofSweep]
      rw [expect_trees]
      exact Forest.sweep_spares (fun _ _ => ⟨_, by rw [expectTree, both]; rfl⟩) 0 _
  | weigh =>
    rw [leaves, Model.mergeWeights]
    cases model.substates.mapM (fill · (0 : α)) with
    | error fault => exact ⟨before, rfl, rfl⟩
    | ok zeros =>
      exact Forest.sweep_spares (fun _ _ => ⟨_, by rw [Model.weighTree, both]; rfl⟩) 0 _
  | judge weights =>
    rw [leaves, Model.mergeLosses]
    split
    · exact Forest.sweep_spares (fun _ _ => ⟨_, by rw [Model.judgeTree, both]; rfl⟩) 0 _
    · exact ⟨before, rfl, rfl⟩

/-- Scores do not depend on what was scored before. Trees in use that have the same categories and
words come to the same scores. A tree whose sizes are not those of the model is refused at the first
node that differs, and every scan leaves it and the trees behind it as they are; no tree is ever
malformed. A forest in use comes to the same in every scan as it would with fresh scores. -/
theorem scoring_forgets (consistent : model.Consistent categories root) :
    (∀ one two : LatentTree α, one.InUse → two.InUse → one.skeleton = two.skeleton →
      LatentTree.Overwrites model one two) ∧
    (∀ tree : LatentTree α, tree.InUse → LatentTree.Judged model tree) ∧
    (∀ (tree node : LatentTree α), tree.subtrees.find? (LatentTree.Disagrees model) = some node →
      ∀ before after substates (scan : Scan α), ∃ scored, scored.length = before.length ∧
        (scan.leaves model ⟨before ++ tree :: after, substates⟩).trees = scored ++ tree :: after) ∧
    ∀ forest : Forest α, InUse model.substates forest →
      ∃ fresh, forest.resize model.substates = .ok fresh ∧ Indistinguishable model forest fresh := by
  refine ⟨fun one two => LatentTree.overwrites model, fun tree => LatentTree.judged consistent,
    fun tree node found before after substates scan => scan.leaves_refused found substates,
    fun forest inUse => ?_⟩
  obtain ⟨fresh, resized⟩ := exists_resize inUse.fits
  exact ⟨fresh, resized, indistinguishable (Forest.resize_skeletons resized).symm inUse.fits
    (fits_of_resize resized) model⟩

/-- A small tree, scored and scored again; the same tree with a substate too many; and a forest that
has been evaluated. -/
theorem sampleTree_scored_again :
    let wide : LatentTree Rat := .unary 0 (blankScores 1)
      (.binary 1 (blankScores 3) (.preterminal 1 "rain" (blankScores 3))
        (.preterminal 1 "fell" (blankScores 3)))
    let evaluated := (evaluate sampleModel ⟨[sampleTree], [1, 2]⟩).1
    (∃ used, sampleTree.computeBoth sampleModel = .ok used ∧
      used.computeBoth sampleModel = .ok used) ∧
      sampleTree.resize [1, 3] = .ok wide ∧
      wide.computeBoth sampleModel = .error (.substateMismatch 1 3 2) ∧
      (∃ scored, scored.length = 1 ∧
        (evaluate sampleModel ⟨[sampleTree, wide, sampleTree], [1, 2]⟩).1.trees =
          scored ++ [wide, sampleTree]) ∧
      ∃ fresh, evaluated.resize [1, 2] = .ok fresh ∧
        Indistinguishable sampleModel evaluated fresh := by
  intro wide evaluated
  let vocabulary := (Vocabulary.empty "ROOT").internAll ["ROOT", "S"]
  let source : Tree :=
    .node "ROOT" [.node "S" [.node "S" [.leaf "rain"], .node "S" [.leaf "fell"]]]
  have built : LatentTree.ofTree [1, 2] vocabulary source = .ok sampleTree := rfl
  have corpus : Forest.ofTrees [source] [1, 2] vocabulary = .ok ⟨[sampleTree], [1, 2]⟩ := by
    rw [Forest.ofTrees, List.mapM_cons, built]
    rfl
  have resized : sampleTree.resize [1, 3] = .ok wide := rfl
  obtain ⟨overwrites, judged, spared, forgets⟩ := scoring_forgets Run.sampleModel_consistent
  have fresh : sampleTree.InUse := ⟨sampleTree, .built built, .unscored⟩
  have differs : wide.subtrees.find? (LatentTree.Disagrees sampleModel) =
      some (.binary 1 (blankScores 3) (.preterminal 1 "rain" (blankScores 3))
        (.preterminal 1 "fell" (blankScores 3))) := rfl
  refine ⟨?_, resized, ((judged wide ⟨wide, .resized resized, .unscored⟩).refused _ differs).2,
    spared wide _ differs [sampleTree] [sampleTree] [1, 2] .evaluate,
    forgets evaluated (.scanned (.built corpus) Run.sampleModel_consistent rfl .evaluate)⟩
  obtain ⟨-, used, scored⟩ := (judged sampleTree fresh).scored rfl (by decide)
  have inUse : used.InUse :=
    ⟨sampleTree, .built built, .both .unscored ⟨2, 0, Run.sampleModel_consistent⟩ scored⟩
  have whole : Delivers Any (·.Fits sampleModel.substates) (sampleTree.computeBoth sampleModel) :=
    computeBoth_fits Run.sampleModel_consistent sampleTree_fits
  obtain ⟨again, scoredAgain, -⟩ :=
    delivers_never_iff.mp (computeBoth_fits Run.sampleModel_consistent (whole.of_ok scored))
  have same := overwrites used sampleTree inUse fresh (LatentTree.computeBoth_skeleton scored)
  exact ⟨used, scored, by rw [scoredAgain, same.both again used scoredAgain scored]⟩

end Training

end LatentGrammar
