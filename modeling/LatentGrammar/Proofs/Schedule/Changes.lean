import LatentGrammar.Proofs.HeldOut.Best
import LatentGrammar.Proofs.Schedule.Frames
import LatentGrammar.Proofs.Schedule.Merges

namespace LatentGrammar

variable {α γ : Type}

namespace Forest

/-- The number of nodes of a category in all trees. -/
def occurrences (forest : Forest α) (state : Nat) : Nat :=
  ((forest.trees.flatMap LatentTree.subtrees).map LatentTree.state).count state

theorem occurrences_eq {forest other : Forest α} (same : forest.skeletons = other.skeletons)
    (state : Nat) : forest.occurrences state = other.occurrences state := by
  have states (forest : Forest α) :
      (forest.trees.flatMap LatentTree.subtrees).map LatentTree.state =
        (forest.skeletons.flatMap LatentTree.subtrees).map LatentTree.state := by
    simp only [skeletons, List.flatMap_map, LatentTree.subtrees_skeleton, List.map_flatMap,
      List.map_map, Function.comp_def, LatentTree.state_skeleton]
  rw [occurrences, occurrences, states forest, states other, same]

theorem foldlM_increment {states counts start : List Nat}
    (done : states.foldlM increment start = .ok counts) {state count : Nat}
    (known : start[state]? = some count) : counts[state]? = some (count + states.count state) := by
  induction states generalizing start count with
  | nil =>
    obtain rfl := Except.ok.inj done
    simpa using known
  | cons first rest ih =>
    rw [List.foldlM_cons] at done
    obtain ⟨next, incremented, done⟩ := bind_eq_ok_iff.mp done
    obtain ⟨before, found, kept⟩ := bind_eq_ok_iff.mp incremented
    obtain rfl := Except.ok.inj kept
    have present := fetch_eq_ok_iff.mp found
    by_cases here : first = state
    · subst here
      obtain rfl := Option.some.inj (known.symm.trans present)
      have inside := (List.getElem?_eq_some_iff.mp present).1
      rw [ih done (List.getElem?_set_self inside), List.count_cons_self]
      congr 1
      omega
    · rw [ih done ((List.getElem?_set_ne here).trans known), List.count_cons_of_ne here]

theorem categoryCounts_of_ok {forest : Forest α} {size : Nat} {counts : List Nat}
    (done : forest.categoryCounts size = .ok counts) {state : Nat} (below : state < size) :
    counts[state]? = some (forest.occurrences state) := by
  have zero : (List.replicate size 0)[state]? = some 0 := by simp [below]
  rw [foldlM_increment done zero, Nat.zero_add]
  rfl

end Forest

/-- A category of this size has room to double: it is not the root, and occurs at least once for each
new substate unless `unbounded`. -/
def MayDouble (root : Nat) (unbounded : Bool) (occurrences state size : Nat) : Prop :=
  state ≠ root ∧ (unbounded = true ∨ 2 * size ≤ occurrences)

theorem growthFactor_of_ok {root size state factor : Nat} {counts : List Nat} {unbounded : Bool}
    (done : growthFactor root counts unbounded size state = .ok factor) :
    (MayDouble root unbounded ((counts[state]?).getD 0) state size → factor = 2) ∧
      (¬MayDouble root unbounded ((counts[state]?).getD 0) state size → factor = 1) := by
  unfold growthFactor at done
  unfold MayDouble
  by_cases isRoot : state = root
  · simp only [isRoot, beq_self_eq_true, if_true] at done
    exact ⟨fun other => absurd isRoot other.1, fun _ => (Except.ok.inj done).symm⟩
  · simp only [beq_iff_eq, isRoot, if_false] at done
    cases unbounded with
    | true => exact ⟨fun _ => (Except.ok.inj done).symm, fun stays => absurd ⟨isRoot, .inl rfl⟩ stays⟩
    | false =>
      obtain ⟨doubled, known, done⟩ := bind_eq_ok_iff.mp done
      obtain ⟨-, rfl⟩ := word_eq_ok_iff.mp known
      obtain rfl := Except.ok.inj done
      by_cases rare : (counts[state]?).getD 0 < 2 * size
      · simp [rare]
      · simp [isRoot, rare, Nat.not_lt.mp rare]

variable [Scalar α] [Draws γ α]

theorem Grammar.split_sizes {grammar : Grammar α} {randomness : α} {counts : List Nat}
    {unbounded : Bool} {stream : γ} {split : Grammar α × γ}
    (done : grammar.split randomness counts unbounded stream = .ok split) :
    split.1.root = grammar.root ∧ split.1.smoothing = .none ∧
      split.1.substates.length = grammar.substates.length ∧
      ∀ (state size : Nat), grammar.substates[state]? = some size →
        (MayDouble grammar.root unbounded ((counts[state]?).getD 0) state size →
          split.1.substates[state]? = some (2 * size)) ∧
        (¬MayDouble grammar.root unbounded ((counts[state]?).getD 0) state size →
          split.1.substates[state]? = some size) := by
  obtain ⟨factors, grows, done⟩ := bind_eq_ok_iff.mp done
  obtain ⟨substates, grown, done⟩ := bind_eq_ok_iff.mp done
  obtain ⟨⟨rules, later⟩, -, done⟩ := bind_eq_ok_iff.mp done
  obtain rfl := Except.ok.inj done
  have numbered : Delivers Any (fun factors : List Nat =>
      factors.length = grammar.substates.length ∧ ∀ (state : Nat) factor,
        factors[state]? = some factor → ∃ size, grammar.substates[state]? = some size ∧
          growthFactor grammar.root counts unbounded size state = .ok factor)
      (growthFactors grammar.substates grammar.root counts unbounded) :=
    Delivers.mapM_zipIdx fun size state found =>
      (delivers_any _).mono_ok fun factor done _ => ⟨size, found, done⟩
  obtain ⟨length, each⟩ := numbered.of_ok grows
  obtain rfl := (multiply_delivers grammar.substates factors any_overflow).of_ok grown
  refine ⟨rfl, rfl, by simp [products, length], fun state size known => ?_⟩
  have inside : state < factors.length := by
    rw [length]
    exact (List.getElem?_eq_some_iff.mp known).1
  have found := List.getElem?_eq_getElem inside
  obtain ⟨same, again, factor⟩ := each state _ found
  obtain rfl := Option.some.inj (known.symm.trans again)
  obtain ⟨doubles, stays⟩ := growthFactor_of_ok factor
  have product := products_getElem? known found
  refine ⟨fun room => ?_, fun noRoom => ?_⟩
  · rw [product, doubles room, Nat.mul_comm]
  · rw [product, stays noRoom, Nat.mul_one]

theorem Lexicon.split_smoothing {lexicon : Lexicon α} {randomness : α} {counts : List Nat}
    {unbounded : Bool} {stream : γ} {split : Lexicon α × γ}
    (done : lexicon.split randomness counts unbounded stream = .ok split) :
    split.1.smoothing = .none := by
  obtain ⟨factors, -, done⟩ := bind_eq_ok_iff.mp done
  obtain ⟨substates, -, done⟩ := bind_eq_ok_iff.mp done
  obtain ⟨-, -, done⟩ := bind_eq_ok_iff.mp done
  obtain ⟨words, -, done⟩ := bind_eq_ok_iff.mp done
  obtain ⟨signatures, -, done⟩ := bind_eq_ok_iff.mp done
  obtain rfl := Except.ok.inj done
  rfl

/-- The smoothing that is installed in grammar and lexicon. -/
def Model.smoothings (model : Model α) : Smoothing α × Smoothing α :=
  (model.grammar.smoothing, model.lexicon.smoothing)

omit [Scalar α] in
theorem Model.smoothings_eq_of_frames {model other : Model α} (same : model.frames = other.frames) :
    model.smoothings = other.smoothings :=
  congrArg (fun frames => (frames.1.smoothing, frames.2.smoothing)) same

omit [Draws γ α] in
theorem Model.merge_keeps {model merged : Model α} {selected : List (SiblingPair α)}
    {weights : List (List α)} (done : model.merge selected weights = .ok merged) :
    merged.grammar.root = model.grammar.root ∧ merged.smoothings = model.smoothings := by
  obtain ⟨mappings, -, done⟩ := bind_eq_ok_iff.mp done
  obtain ⟨grammar, collapsed, done⟩ := bind_eq_ok_iff.mp done
  obtain ⟨lexicon, lexical, done⟩ := bind_eq_ok_iff.mp done
  obtain rfl := Except.ok.inj done
  have grammatical : grammar.root = model.grammar.root ∧
      grammar.smoothing = model.grammar.smoothing := by
    obtain ⟨substates, -, collapsed⟩ := bind_eq_ok_iff.mp collapsed
    obtain ⟨-, -, collapsed⟩ := bind_eq_ok_iff.mp collapsed
    obtain ⟨rules, -, collapsed⟩ := bind_eq_ok_iff.mp collapsed
    obtain ⟨ancestry, -, done⟩ := bind_eq_ok_iff.mp collapsed
    obtain rfl := Except.ok.inj done
    exact ⟨rfl, rfl⟩
  have smoothing : lexicon.smoothing = model.lexicon.smoothing := by
    obtain ⟨substates, -, lexical⟩ := bind_eq_ok_iff.mp lexical
    obtain ⟨-, -, lexical⟩ := bind_eq_ok_iff.mp lexical
    obtain ⟨words, -, lexical⟩ := bind_eq_ok_iff.mp lexical
    obtain ⟨signatures, -, lexical⟩ := bind_eq_ok_iff.mp lexical
    obtain ⟨words, -, lexical⟩ := bind_eq_ok_iff.mp lexical
    obtain ⟨signatures, -, lexical⟩ := bind_eq_ok_iff.mp lexical
    obtain ⟨ancestry, -, done⟩ := bind_eq_ok_iff.mp lexical
    obtain rfl := Except.ok.inj done
    rfl
  exact ⟨grammatical.1, Prod.ext grammatical.2 smoothing⟩

namespace Training

/-- The smoothing after a phase, given the one before. A split removes it, and only smoothing
installs it. -/
def Phase.install (config : Config α) (installed : Smoothing α × Smoothing α) :
    Phase → Smoothing α × Smoothing α
  | split => (.none, .none)
  | merge => installed
  | smooth => (config.grammarSmoothing, config.lexiconSmoothing)

namespace Run

variable {start run changed next : Run α γ} {stage : Stage α}

variable [TotalOrder α]

/-- The sibling pairs that are selected for merging, with the trees and the weights that they were
judged by. -/
def choice (run : Run α γ) : Except Fault (Forest α × List (List α) × List (SiblingPair α)) := do
  let (train, weights) := Pass.ofSweep run.train (run.best.mergeWeights run.train)
  let weights ← weights
  let (train, candidates) := Pass.ofSweep train (run.best.mergeLosses train weights)
  let candidates ← candidates
  let lexical ← train.lexicalCategories run.best.substates.length
  return (train, weights, SiblingPair.select run.config.separateMergeThreshold
    run.config.mergePercentage lexical candidates)

omit [Draws γ α] in
theorem merged_eq (run : Run α γ) :
    run.merged = (do
      let _ ← run.best.grammar.substateTotal
      let (train, weights, selected) ← run.choice
      let merged ← run.best.merge selected weights
      return (merged, ← train.resize merged.substates)) := by
  simp only [merged, choice, bind_assoc, pure_bind]

omit [Draws γ α] in
theorem choice_disjoint {train : Forest α} {weights : List (List α)}
    {selected : List (SiblingPair α)} (done : run.choice = .ok (train, weights, selected)) :
    train.skeletons = run.train.skeletons ∧
      ∀ state, DisjointPairs (SiblingPair.pairsOf state selected) := by
  obtain ⟨weights, -, done⟩ := bind_eq_ok_iff.mp done
  obtain ⟨candidates, judged, done⟩ := bind_eq_ok_iff.mp done
  obtain ⟨lexical, -, done⟩ := bind_eq_ok_iff.mp done
  obtain ⟨rfl, rfl, rfl⟩ : _ ∧ _ ∧ _ := by simpa using Except.ok.inj done
  refine ⟨(Model.mergeLosses_skeletons _ _ _).trans (Model.mergeWeights_skeletons _ _),
    fun state => SiblingPair.disjoint_of_subperm ?_ (run.best.mergeCandidates_disjoint state)⟩
  rw [← (Model.mergeLosses_places run.best _ weights).of_ok judged]
  exact SiblingPair.select_places _ _ lexical candidates

/-- A category of this size doubles in a split. -/
def Doubles (run : Run α γ) (state size : Nat) : Prop :=
  MayDouble run.best.grammar.root run.config.allowMoreSubstatesThanCounts
    (run.train.occurrences state) state size

/-- What a phase makes of the numbers of substates of a run that began with `start`. -/
def Resizes (start run : Run α γ) (phase : Phase) (sizes : List Nat) : Prop :=
  match phase with
  | .split =>
    sizes.length = run.best.substates.length ∧
      ∀ (state size : Nat), run.best.substates[state]? = some size →
        (start.Doubles state size → sizes[state]? = some (2 * size)) ∧
        (¬start.Doubles state size → sizes[state]? = some size)
  | .merge =>
    ∃ train weights selected, run.choice = .ok (train, weights, selected) ∧
      sizes.length = run.best.substates.length ∧
      ∀ (state size : Nat), run.best.substates[state]? = some size →
        ∃ left, sizes[state]? = some left ∧ left + selected.countP (·.state == state) = size
  | .smooth => sizes = run.best.substates

/-- The run goes on with the settings, the trees and the root that it began with. -/
structure GoesOn (run start : Run α γ) : Prop where
  config_eq : run.config = start.config
  output_eq : run.output = start.output
  train_eq : run.train.skeletons = start.train.skeletons
  root_eq : run.best.grammar.root = start.best.grammar.root

omit [Scalar α] [Draws γ α] [TotalOrder α] in
theorem GoesOn.doubles_iff (goesOn : run.GoesOn start) (state size : Nat) :
    run.Doubles state size ↔ start.Doubles state size := by
  rw [Doubles, Doubles, goesOn.config_eq, goesOn.root_eq, Forest.occurrences_eq goesOn.train_eq]

/-- The change that a phase makes before its inner loop. -/
structure Turns (start run changed : Run α γ) (phase : Phase) : Prop where
  goesOn : changed.GoesOn start
  sizes : start.Resizes run phase changed.best.substates
  smoothings : changed.best.smoothings = phase.install start.config run.best.smoothings

theorem split_turns (goesOn : run.GoesOn start) (done : run.split = .ok changed) :
    start.Turns run changed .split := by
  obtain ⟨counts, counted, done⟩ := bind_eq_ok_iff.mp done
  obtain ⟨⟨best, stream⟩, splits, done⟩ := bind_eq_ok_iff.mp done
  obtain rfl := Except.ok.inj done
  obtain ⟨⟨grammar, later⟩, splitsGrammar, splits⟩ := bind_eq_ok_iff.mp splits
  obtain ⟨⟨lexicon, last⟩, splitsLexicon, done⟩ := bind_eq_ok_iff.mp splits
  obtain ⟨rfl, rfl⟩ := Prod.mk.inj (Except.ok.inj done)
  obtain ⟨root, smoothing, length, sizes⟩ := Grammar.split_sizes splitsGrammar
  refine ⟨⟨goesOn.config_eq, goesOn.output_eq, goesOn.train_eq, root.trans goesOn.root_eq⟩,
    ⟨length, fun state size known => ?_⟩, Prod.ext smoothing (Lexicon.split_smoothing splitsLexicon)⟩
  have below : state < run.best.substates.length := (List.getElem?_eq_some_iff.mp known).1
  have grown := sizes state size known
  rw [Forest.categoryCounts_of_ok counted below] at grown
  rw [← goesOn.doubles_iff]
  exact grown

omit [Draws γ α] in
theorem merge_turns (goesOn : run.GoesOn start) (done : run.merge = .ok changed) :
    start.Turns run changed .merge := by
  rw [merge_eq] at done
  obtain ⟨⟨_, _⟩, merges, done⟩ := bind_eq_ok_iff.mp done
  obtain ⟨⟨best, outcome⟩, retrained, done⟩ := bind_eq_ok_iff.mp done
  obtain rfl := Except.ok.inj done
  rw [merged_eq] at merges
  obtain ⟨-, -, merges⟩ := bind_eq_ok_iff.mp merges
  obtain ⟨⟨judged, weights, selected⟩, chosen, merges⟩ := bind_eq_ok_iff.mp merges
  obtain ⟨smaller, collapsed, merges⟩ := bind_eq_ok_iff.mp merges
  obtain ⟨train, resized, done⟩ := bind_eq_ok_iff.mp merges
  obtain ⟨rfl, rfl⟩ := Prod.mk.inj (Except.ok.inj done)
  obtain ⟨kept, disjoint⟩ := choice_disjoint chosen
  obtain ⟨root, smoothings⟩ := Model.merge_keeps collapsed
  have frames : best.frames = smaller.frames :=
    (nextLexicon_frames smaller (rare run.config) train).of_ok retrained
  have substates := Model.substates_eq_of_frames frames
  refine ⟨⟨goesOn.config_eq, goesOn.output_eq, ?_, ?_⟩, ⟨judged, weights, selected, chosen, ?_⟩, ?_⟩
  · exact (nextLexicon_skeletons smaller (rare run.config) train).trans
      ((Forest.resize_skeletons resized).trans (kept.trans goesOn.train_eq))
  · exact (congrArg (·.1.root) frames).trans (root.trans goesOn.root_eq)
  · rw [substates]
    exact Model.merge_sizes disjoint collapsed
  · exact (Model.smoothings_eq_of_frames frames).trans smoothings

theorem transform_turns (goesOn : run.GoesOn start) {phase : Phase}
    (done : run.transform phase = .ok changed) : start.Turns run changed phase := by
  cases phase with
  | split => exact split_turns goesOn done
  | merge => exact merge_turns goesOn done
  | smooth =>
    obtain rfl := Except.ok.inj done
    refine ⟨⟨goesOn.config_eq, goesOn.output_eq, goesOn.train_eq, goesOn.root_eq⟩, rfl, ?_⟩
    rw [← goesOn.config_eq]
    rfl

end Run

end Training

end LatentGrammar
