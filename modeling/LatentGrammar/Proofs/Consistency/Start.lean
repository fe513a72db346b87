import LatentGrammar.Proofs.Consistency.Split
import LatentGrammar.Training.Start

namespace LatentGrammar

variable {α γ : Type} {allowed : Fault → Prop}

/-- The index is the one that would be built from the table. -/
def Vocabulary.Indexed (vocabulary : Vocabulary) : Prop := vocabulary.indexed = vocabulary

namespace Vocabulary

variable {vocabulary : Vocabulary}

theorem indexed_iff : vocabulary.Indexed ↔ vocabulary.labels.zipIdx.reverse = vocabulary.index := by
  obtain ⟨labels, rootLabel, index⟩ := vocabulary
  simp [Indexed, indexed]

theorem indexed_indexed (vocabulary : Vocabulary) : vocabulary.indexed.Indexed := rfl

theorem Indexed.id? (indexed : vocabulary.Indexed) {label : String} {id : Nat}
    (found : vocabulary.id? label = some id) : id < vocabulary.size := by
  rw [Vocabulary.id?, ← indexed_iff.mp indexed] at found
  obtain ⟨before, after, split, -⟩ := List.lookup_eq_some_iff.mp found
  have numbered : (label, id) ∈ vocabulary.labels.zipIdx := by
    rw [← List.mem_reverse, split]
    simp
  exact (List.getElem?_eq_some_iff.mp (List.mem_zipIdx_iff_getElem?.mp numbered)).1

theorem indexed_empty (rootLabel : String) : (empty rootLabel).Indexed := rfl

theorem Indexed.intern (indexed : vocabulary.Indexed) (label : String) :
    (vocabulary.intern label).2.Indexed := by
  unfold Vocabulary.intern
  split
  · exact indexed
  · rw [indexed_iff] at indexed ⊢
    simp [List.zipIdx_append, size, indexed]

theorem Indexed.internAll (indexed : vocabulary.Indexed) (labels : List String) :
    (vocabulary.internAll labels).Indexed := by
  unfold Vocabulary.internAll
  induction labels generalizing vocabulary with
  | nil => exact indexed
  | cons label rest ih => exact ih (indexed.intern label)

theorem rootLabel_intern (vocabulary : Vocabulary) (label : String) :
    (vocabulary.intern label).2.rootLabel = vocabulary.rootLabel := by
  unfold intern
  split <;> rfl

theorem rootLabel_internAll (vocabulary : Vocabulary) (labels : List String) :
    (vocabulary.internAll labels).rootLabel = vocabulary.rootLabel := by
  unfold internAll
  induction labels generalizing vocabulary with
  | nil => rfl
  | cons label rest ih => exact (ih _).trans (vocabulary.rootLabel_intern label)

end Vocabulary

namespace EmissionCounts

variable [Scalar α] [Draws γ α] {policy : UnseenPolicy α} {randomness : α}
  {reference : Option (Lexicon α)} {invariant : EmissionCounts α → Prop} {counts : EmissionCounts α}

/-- The weights of a token before noise: as the reference scores the word, or equal ones. -/
def Weighs (reference : Option (Lexicon α)) (word : String) (state position size : Nat)
    (weights : List α) : Prop :=
  match reference with
  | some lexicon => lexicon.score word state position = .ok weights
  | none => weights = List.replicate size 1

/-- What every token keeps is kept when tokens are counted, whatever they are. -/
theorem countTokens_keeps (initial : invariant counts) (tokens : List (LatentTree α × Nat))
    (adds : ∀ counts word state position size weights (stream : γ),
      Weighs reference word state position size weights → invariant counts →
        Delivers Any invariant (counts.add policy state word position
          (proportions size (perturbAll randomness weights stream).1)))
    (stream : γ) :
    Delivers Any (invariant ·.1) (countTokens policy randomness reference tokens counts stream) := by
  induction tokens generalizing counts stream with
  | nil => exact initial
  | cons token rest ih =>
    obtain ⟨tree, position⟩ := token
    cases tree with
    | preterminal state word scores =>
      have counted {size : Nat} {weights : List α}
          (weighs : Weighs reference word state position size weights) :
          Delivers Any (invariant ·.1) (do
            let noisy := perturbAll randomness weights stream
            let counts ← counts.add policy state word position (proportions size noisy.1)
            countTokens policy randomness reference rest counts noisy.2) :=
        (adds counts word state position size weights stream weighs initial).bind
          fun _ holds => ih holds _
      refine (delivers_any _).bind fun size _ => ?_
      cases reference with
      | none => exact counted rfl
      | some lexicon => exact (delivers_any _).bind_ok fun weights scored _ => counted scored
    | unary | binary => exact ih initial stream

end EmissionCounts

namespace Training

/-- What every token keeps is kept when the tokens of trees are counted. -/
theorem countAllUnscored_keeps [Scalar α] [Draws γ α] {rare randomness : α}
    {reference : Option (Lexicon α)} {invariant : EmissionCounts α → Prop}
    {counts : EmissionCounts α} (initial : invariant counts) (active : Nat → Bool)
    (adds : ∀ policy counts word state position size weights (stream : γ),
      EmissionCounts.Weighs reference word state position size weights → invariant counts →
        Delivers Any invariant (counts.add policy state word position
          (EmissionCounts.proportions size (perturbAll randomness weights stream).1)))
    (index : Nat) (trees : List (LatentTree α)) (stream : γ) :
    Delivers Any (invariant ·.1)
      (countAllUnscored active rare randomness reference index trees counts stream) := by
  induction trees generalizing counts index stream with
  | nil => exact initial
  | cons tree rest ih =>
    exact (EmissionCounts.countTokens_keeps initial _ (adds _) stream).bind
      fun _ holds => ih holds (index + 1) _

theorem indexed_numberCategories {vocabulary : Vocabulary} (indexed : vocabulary.Indexed)
    (trees : List Tree) : (numberCategories vocabulary trees).Indexed :=
  (indexed.internAll _).internAll _

/-- What a start needs of categories and substates. -/
structure SubstatesFit (substates : List Nat) (categories root : Nat) : Prop where
  length_eq : substates.length = categories
  single : substates[root]? = some 1
  positive : ∀ size ∈ substates, 1 ≤ size

theorem initialSubstates_fit {vocabulary : Vocabulary} (indexed : vocabulary.Indexed)
    {root : Nat} (rooted : vocabulary.root? = some root) {count : Nat} (positive : 1 ≤ count) :
    SubstatesFit (initialSubstates vocabulary count) vocabulary.size root where
  length_eq := by simp [initialSubstates]
  single := by
    have below : root < vocabulary.size := indexed.id? rooted
    simp [initialSubstates, below, rooted]
  positive := by
    intro size member
    obtain ⟨state, -, rfl⟩ := List.mem_map.mp member
    split
    · exact Nat.le_refl 1
    · exact positive

theorem uniform_delivers (count : Nat) (overflow : allowed .overflow) :
    Delivers allowed (·.Fits count) (Ancestry.uniform count) :=
  (delivers_fill_or_overflow fun _ => overflow).bind fun parents same => by
    simp [Ancestry.Fits, Ancestry.size, same]

theorem mapM_uniform_delivers (substates : List Nat) (overflow : allowed .overflow) :
    Delivers allowed (List.Forall₂ Ancestry.Fits · substates)
      (substates.mapM Ancestry.uniform) :=
  (Delivers.mapM fun count _ => uniform_delivers count overflow).mono fun _ all => all.flip

variable [Scalar α] [Draws γ α]

theorem countAllUnscored_delivers {frame : LexiconFrame α} {counts : EmissionCounts α}
    (inFrame : counts.InFrame frame) {trees : List (LatentTree α)}
    (fits : ∀ tree ∈ trees, tree.Fits frame.substates) {reference : Option (Lexicon α)}
    (answers : ∀ lexicon, reference = some lexicon →
      lexicon.substates = frame.substates ∧ lexicon.Answers allowed)
    (active : Nat → Bool) (rare randomness : α) (index : Nat) (stream : γ) :
    Delivers allowed (·.1.InFrame frame)
      (countAllUnscored active rare randomness reference index trees counts stream) := by
  induction trees generalizing counts index stream with
  | nil => exact inFrame
  | cons tree rest ih =>
    obtain ⟨here, later⟩ := List.forall_mem_cons.mp fits
    exact (EmissionCounts.countUnscored_delivers inFrame here answers randomness stream).bind
      fun next inFrame => ih inFrame later (index + 1) next.2

theorem emissionsStart_delivers {substates : List Nat} {ancestry : List Ancestry}
    (known : substates.mapM Ancestry.uniform = .ok ancestry) (root : Nat)
    (settings : LexiconSettings α) (overflow : allowed .overflow) :
    Delivers allowed (·.InFrame ⟨substates, root, settings, .none, ancestry⟩)
      (EmissionCounts.start substates root settings) := by
  unfold EmissionCounts.start
  rw [known]
  exact (EmissionCounts.empty_delivers substates overflow).bind fun tables fits => ⟨rfl, fits⟩

omit [Scalar α] in
theorem rulesStart_eq {substates : List Nat} {ancestry : List Ancestry}
    (known : substates.mapM Ancestry.uniform = .ok ancestry) (root : Nat) (threshold : α) :
    RuleCounts.start substates root threshold =
      .ok ⟨⟨substates, root, .none, threshold, ancestry⟩, .empty⟩ := by
  simp only [RuleCounts.start, known, ok_bind]
  rfl

omit [Scalar α] in
/-- Grammar and lexicon that start from the same substates, root and ancestry. -/
theorem consistent_of_starts {substates : List Nat} {categories root : Nat}
    (fit : SubstatesFit substates categories root) {ancestry : List Ancestry}
    (ancestryFits : List.Forall₂ Ancestry.Fits ancestry substates) {grammar : Grammar α}
    {threshold : α}
    (grammarFrame : grammar.toGrammarFrame = ⟨substates, root, .none, threshold, ancestry⟩)
    (rules : grammar.rules.Fits substates) {emissions : EmissionCounts α}
    {settings : LexiconSettings α}
    (emissionsFrame : emissions.toLexiconFrame = ⟨substates, root, settings, .none, ancestry⟩)
    (tables : emissions.tables.Fits substates) :
    (⟨grammar, emissions.estimate⟩ : Model α).Consistent categories root := by
  obtain ⟨frame, ruleTable⟩ := grammar
  obtain ⟨frame', emissionTables⟩ := emissions
  subst grammarFrame
  subst emissionsFrame
  exact ⟨fit.length_eq, rfl, fit.single, fit.positive, ancestryFits, rules, rfl, rfl, rfl, tables⟩

/-- The starts of grammar and lexicon reckon the same ancestry, each for itself. -/
theorem firstModel_delivers {forest : Forest α} {settings : FirstModelSettings α} {categories : Nat}
    (substates : SubstatesFit forest.substates categories settings.root)
    (trees : ∀ tree ∈ forest.trees, tree.Fits forest.substates) (overflow : allowed .overflow)
    (stream : γ) :
    Delivers allowed
      (fun next => next.1.Consistent categories settings.root ∧
        next.1.substates = forest.substates)
      (firstModel forest settings stream) := by
  have ancestries := mapM_uniform_delivers forest.substates overflow
  cases known : forest.substates.mapM Ancestry.uniform with
  | error fault =>
    rw [known] at ancestries
    simp only [firstModel, EmissionCounts.start, known]
    exact ancestries
  | ok ancestry =>
    rw [known] at ancestries
    have ancestryFits : List.Forall₂ Ancestry.Fits ancestry forest.substates := ancestries
    unfold firstModel
    refine (emissionsStart_delivers known settings.root settings.lexicon overflow).bind
      fun empty emptyFits => ?_
    refine (countAllUnscored_delivers emptyFits trees (by rintro _ ⟨⟩) _ _ _ 0
      stream).bind fun (scratch, stream) scratchFits => ?_
    obtain ⟨scratchFrame, scratchConsistent⟩ := scratchFits.estimate ancestryFits
    refine (countAllUnscored_delivers emptyFits trees (fun lexicon same => ?_)
      _ _ _ 0 stream).bind fun (emissions, stream) emissionsFit => ?_
    · obtain rfl := Option.some.inj same
      exact ⟨congrArg (·.substates) scratchFrame, scratchConsistent.answers⟩
    simp only [rulesStart_eq known, ok_bind]
    let frame : GrammarFrame α :=
      ⟨forest.substates, settings.root, .none, settings.filter, ancestry⟩
    have counted : Delivers allowed (·.InFrame frame)
        (forest.trees.foldlM RuleCounts.countEvenly ⟨frame, .empty⟩) :=
      Delivers.foldlM ⟨rfl, fun entry member => absurd member List.not_mem_nil⟩
        fun counts tree member inFrame =>
          RuleCounts.countEvenly_delivers inFrame (trees tree member) overflow
    apply counted.bind
    intro rules rulesFit
    refine (EmissionCounts.tieRare_delivers emissionsFit settings.rare).bind
      fun emissions emissionsFit => ?_
    refine (RuleCounts.estimate_delivers rulesFit ancestryFits overflow settings.randomness
      stream).bind fun (grammar, stream) ⟨frame, fits⟩ => ?_
    exact ⟨consistent_of_starts substates ancestryFits frame fits emissionsFit.frame_eq
      emissionsFit.fits, congrArg (·.substates) frame⟩

end Training

end LatentGrammar
