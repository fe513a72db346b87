import LatentGrammar.Proofs.Consistency.Candidates
import LatentGrammar.Proofs.Consistency.Start
import LatentGrammar.Training.Run

namespace LatentGrammar

variable {α γ : Type} {allowed : Fault → Prop} {substates : List Nat}

namespace LatentTree

theorem Fits.state_lt {tree : LatentTree α} (fits : tree.Fits substates) :
    tree.state < substates.length :=
  (List.getElem?_eq_some_iff.mp fits.substates_eq).1

theorem Fits.mapWords {tree : LatentTree α} (fits : tree.Fits substates)
    (f : String → Nat → String) (position : Nat) : (tree.mapWords f position).Fits substates := by
  induction tree generalizing position with
  | preterminal state word scores => exact fits_preterminal.mpr (fits_preterminal.mp fits)
  | unary state scores child ih =>
    obtain ⟨top, below⟩ := fits_unary.mp fits
    exact fits_unary.mpr ⟨top, ih below position⟩
  | binary state scores left right leftIh rightIh =>
    obtain ⟨top, leftBelow, rightBelow⟩ := fits_binary.mp fits
    exact fits_binary.mpr ⟨top, leftIh leftBelow _, rightIh rightBelow _⟩

end LatentTree

namespace Forest

variable {forest : Forest α}

theorem Fits.replaceRare (fits : forest.Fits substates) (f : String → Nat → String)
    (threshold : Nat) : (forest.replaceRare f threshold).Fits substates := by
  constructor
  · exact fits.substates_eq
  · intro tree member
    obtain ⟨old, present, rfl⟩ := List.mem_map.mp member
    exact (fits.trees old present).mapWords _ 0

/-- Tables over all categories have an entry for the category of every node. -/
theorem Fits.foldlM_states {β : Type} {step : List β → Nat → Except Fault (List β)}
    (fits : forest.Fits substates) {nodes : LatentTree α → List (LatentTree α)}
    (inside : ∀ tree, ∀ node ∈ nodes tree, node ∈ tree.subtrees)
    (each : ∀ (table : List β) state, state < table.length →
      Delivers allowed (·.length = table.length) (step table state)) (entry : β) :
    Delivers allowed (·.length = substates.length)
      (((forest.trees.flatMap nodes).map LatentTree.state).foldlM step
        (List.replicate substates.length entry)) := by
  refine Delivers.foldlM List.length_replicate fun table state member length => ?_
  obtain ⟨node, present, rfl⟩ := List.mem_map.mp member
  obtain ⟨tree, isTree, isNode⟩ := List.mem_flatMap.mp present
  have below := ((fits.trees tree isTree).of_mem (inside tree node isNode)).state_lt
  exact (each table node.state (length.symm ▸ below)).mono fun next same => same.trans length

theorem Fits.categoryCounts (fits : forest.Fits substates) :
    Delivers allowed (·.length = substates.length) (forest.categoryCounts substates.length) :=
  fits.foldlM_states (fun _ _ member => member)
    (fun table _ below => (delivers_fetch_below below).bind fun _ _ => by simp) 0

theorem Fits.lexicalCategories (fits : forest.Fits substates) :
    Delivers allowed (·.length = substates.length) (forest.lexicalCategories substates.length) := by
  refine fits.foldlM_states (fun tree node member => ?_)
    (fun table _ below => (delivers_fetch_below below).bind fun _ _ => by simp) false
  rw [LatentTree.preterminals_eq_filter] at member
  exact (List.mem_filter.mp member).1

variable [Scalar α]

theorem Fits.resize {other : List Nat} (fits : forest.Fits other)
    (categories : other.length = substates.length) (overflow : allowed .overflow) :
    Delivers allowed (·.Fits substates) (forest.resize substates) := by
  have resized : Delivers allowed (fun trees : List (LatentTree α) =>
      ∀ tree ∈ trees, tree.Fits substates) (forest.trees.mapM (LatentTree.resize substates)) :=
    Delivers.mapM_forall fun tree member =>
      LatentTree.resize_delivers (fits.trees tree member) categories overflow
  exact resized.bind fun trees all => ⟨rfl, all⟩

theorem ofTrees_fits {trees : List Tree} {vocabulary : Vocabulary}
    (built : ofTrees trees substates vocabulary = .ok forest) : forest.Fits substates := by
  obtain ⟨latent, each, done⟩ := bind_eq_ok_iff.mp built
  obtain rfl := Except.ok.inj done
  have all : Delivers Any
      (fun latent : List (LatentTree α) => ∀ tree ∈ latent, tree.Fits substates)
      (trees.mapM (LatentTree.ofTree substates vocabulary)) := by
    apply Delivers.mapM_forall
    intro source _
    exact (delivers_any _).mono_ok fun tree success _ => LatentTree.ofTree_fits success
  exact ⟨rfl, all.of_ok each⟩

end Forest

namespace Training

/-- A run between two phases: best and latest model are consistent, have the same numbers of
substates, and the trees have been scored for these. -/
structure Run.Settled (run : Run α γ) (root : Nat) : Prop where
  indexed : run.vocabulary.Indexed
  rooted : run.vocabulary.root? = some root
  best : run.best.Consistent run.vocabulary.size root
  candidate : run.candidate.Consistent run.vocabulary.size root
  substates_eq : run.candidate.substates = run.best.substates
  train : run.train.Fits run.best.substates
  validation : run.validation.Fits run.best.substates

/-- A run within a phase: both models are consistent, but either set of trees may still be made for
other numbers of substates of the same categories. -/
structure Run.Changed (run : Run α γ) (root : Nat) : Prop where
  indexed : run.vocabulary.Indexed
  rooted : run.vocabulary.root? = some root
  best : run.best.Consistent run.vocabulary.size root
  candidate : run.candidate.Consistent run.vocabulary.size root
  train : run.train.Fits run.train.substates
  trainCategories : run.train.substates.length = run.vocabulary.size
  validation : run.validation.Fits run.validation.substates
  validationCategories : run.validation.substates.length = run.vocabulary.size

namespace Run

variable {run : Run α γ} {root : Nat}

theorem Settled.changed (settled : run.Settled root) : run.Changed root where
  indexed := settled.indexed
  rooted := settled.rooted
  best := settled.best
  candidate := settled.candidate
  train := by rw [settled.train.substates_eq]; exact settled.train
  trainCategories := by rw [settled.train.substates_eq]; exact settled.best.categories_eq
  validation := by rw [settled.validation.substates_eq]; exact settled.validation
  validationCategories := by rw [settled.validation.substates_eq]; exact settled.best.categories_eq

theorem Changed.withBest (changed : run.Changed root) {best : Model α}
    (consistent : best.Consistent run.vocabulary.size root) (stream : γ) :
    { run with best, stream }.Changed root :=
  { changed with best := consistent }

/-- The best model comes with training trees of some numbers of substates of its categories. -/
theorem Changed.withTrees (changed : run.Changed root) {best : Model α}
    (consistent : best.Consistent run.vocabulary.size root) {train : Forest α}
    {substates : List Nat} (fits : train.Fits substates)
    (categories : substates.length = run.vocabulary.size) :
    { run with best, train }.Changed root := by
  obtain rfl := fits.substates_eq
  exact { changed with best := consistent, train := fits, trainCategories := categories }

variable [Scalar α]

theorem split_delivers [Draws γ α] (settled : run.Settled root) (overflow : allowed .overflow) :
    Delivers allowed (·.Changed root) run.split := by
  apply settled.train.categoryCounts.bind
  intro counts _
  exact (settled.best.split _ _ counts _ run.stream overflow).bind
    fun next consistent => settled.changed.withBest consistent next.2

theorem smooth_changed (settled : run.Settled root) : run.smooth.Changed root :=
  settled.changed.withBest (settled.best.withSmoothing ..) run.stream

/-- The merged model, and training trees of its sizes. -/
def merged (run : Run α γ) [TotalOrder α] : Except Fault (Model α × Forest α) := do
  let _ ← run.best.grammar.substateTotal
  let (train, weights) := Pass.ofSweep run.train (run.best.mergeWeights run.train)
  let weights ← weights
  let (train, candidates) := Pass.ofSweep train (run.best.mergeLosses train weights)
  let candidates ← candidates
  let lexical ← train.lexicalCategories run.best.substates.length
  let selected := SiblingPair.select run.config.separateMergeThreshold
    run.config.mergePercentage lexical candidates
  let merged ← run.best.merge selected weights
  return (merged, ← train.resize merged.substates)

/-- Merging re-estimates the lexicon of the merged model on trees of its sizes. -/
theorem merge_eq (run : Run α γ) [TotalOrder α] :
    run.merge = (do
      let (merged, train) ← run.merged
      let (train, retrained) := nextLexicon merged (rare run.config) train
      let (best, _) ← retrained
      return { run with best, train }) := by
  simp only [merge, merged, bind_assoc, pure_bind]

theorem merged_delivers [TotalOrder α] (settled : run.Settled root) (overflow : allowed .overflow) :
    Delivers allowed (fun next =>
        next.1.Consistent run.vocabulary.size root ∧ next.2.Fits next.1.substates)
      run.merged := by
  obtain ⟨train, weighing⟩ := Model.mergeWeights_sound settled.best settled.train overflow
  unfold merged
  apply (delivers_word overflow).bind
  intro _ _
  apply weighing.bind
  intro weights weighted
  obtain ⟨train, judging⟩ := Model.mergeLosses_sound settled.best train weighted
  apply judging.bind
  intro candidates fit
  apply train.lexicalCategories.bind
  intro lexical _
  refine (settled.best.merge (fun pair member => fit pair (mem_select member)) weighted
    overflow).bind fun merged consistent => ?_
  have categories : run.best.substates.length = merged.substates.length :=
    settled.best.categories_eq.trans consistent.categories_eq.symm
  exact (train.resize categories overflow).bind fun train fits => ⟨consistent, fits⟩

theorem merge_delivers [TotalOrder α] (settled : run.Settled root) (overflow : allowed .overflow) :
    Delivers allowed (·.Changed root) run.merge := by
  rw [merge_eq]
  apply (merged_delivers settled overflow).bind
  rintro ⟨merged, train⟩ ⟨consistent, fits⟩
  obtain ⟨trained, retrained⟩ := nextLexicon_sound consistent fits overflow (rare run.config)
  apply retrained.bind
  rintro ⟨best, _⟩ ⟨better, same⟩
  exact settled.changed.withTrees better trained consistent.categories_eq

/-- Every phase leaves consistent models behind, whatever run it starts from. -/
theorem transform_delivers [Draws γ α] [TotalOrder α] (settled : run.Settled root)
    (overflow : allowed .overflow) (phase : Phase) :
    Delivers allowed (·.Changed root) (run.transform phase) := by
  cases phase with
  | split => exact split_delivers settled overflow
  | merge => exact merge_delivers settled overflow
  | smooth => exact smooth_changed settled

theorem fit_delivers {set : Forest α} {substates : List Nat} (fits : set.Fits set.substates)
    (categories : set.substates.length = substates.length) (overflow : allowed .overflow) :
    Delivers allowed (·.Fits substates) (fit set substates) := by
  refine Delivers.ite (fun same => ?_) fun _ => fits.resize categories overflow
  obtain same : set.substates = substates := by simpa using same
  exact same ▸ fits

theorem resizeTrees_delivers (changed : run.Changed root) {substates : List Nat}
    (categories : substates.length = run.vocabulary.size) (overflow : allowed .overflow) :
    Delivers allowed (fun next => ∃ train validation,
        next = { run with train, validation } ∧ train.Fits substates ∧ validation.Fits substates)
      (run.resizeTrees substates) := by
  refine (fit_delivers changed.train (changed.trainCategories.trans categories.symm)
    overflow).bind fun train trainFits => ?_
  refine (fit_delivers changed.validation (changed.validationCategories.trans categories.symm)
    overflow).bind fun validation validationFits => ?_
  exact ⟨train, validation, rfl, trainFits, validationFits⟩

end Run

end Training

end LatentGrammar
