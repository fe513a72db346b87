import LatentGrammar.Proofs.Consistency.InnerLoop
import LatentGrammar.Proofs.Scoring.Derivation

namespace LatentGrammar

variable {α γ : Type} {allowed : Fault → Prop}

/-- The model is consistent over the categories of the vocabulary, as it will be indexed again. -/
def Checkpoint.Consistent (checkpoint : Checkpoint α) : Prop :=
  ∃ root, checkpoint.vocabulary.indexed.root? = some root ∧
    checkpoint.model.Consistent checkpoint.vocabulary.size root

namespace Training

/-- What the stages save is consistent. -/
def SavesConsistent (stages : List (Stage α)) : Prop :=
  ∀ entry ∈ stages.filterMap Stage.checkpoint, entry.2.Consistent

/-- Whatever comes of a run, what it saves is consistent, and it fails only for lack of room. -/
structure Attempt.Sound (attempt : Attempt α) : Prop where
  saves : ∀ entry ∈ attempt.saves, entry.2.Consistent
  result : ∀ fault, attempt.result = .error fault → fault = .model .overflow

theorem SavesConsistent.append {stages later : List (Stage α)} (saved : SavesConsistent stages)
    (savedLater : SavesConsistent later) : SavesConsistent (stages ++ later) := by
  intro entry member
  rw [List.filterMap_append] at member
  exact (List.mem_append.mp member).elim (saved entry) (savedLater entry)

namespace Run

variable [Scalar α] {run : Run α γ} {root : Nat}

omit [Scalar α] in
theorem Settled.checkpoint (settled : run.Settled root) {model : Model α}
    (consistent : model.Consistent run.vocabulary.size root) :
    (run.checkpoint model).Consistent := by
  refine ⟨root, ?_, consistent⟩
  show run.vocabulary.indexed.root? = some root
  rw [settled.indexed]
  exact settled.rooted

variable [TotalOrder α]

/-- Some phases led from one settled run to another, or inner loops without a phase. -/
inductive Reaches [Draws γ α] (start : Run α γ) : Run α γ → Prop
  | start : Reaches start start
  | phase {run next : Run α γ} {stage : Stage α} (before : Reaches start run) (phase : Phase)
      (round : Nat) (done : run.runPhase phase round = .ok (next, stage)) : Reaches start next
  | loop {run next : Run α γ} {stage : Stage α} (before : Reaches start run) (round : Nat)
      (limits : InnerLoop.Limits) (done : run.improve none round limits = .ok (next, stage)) :
      Reaches start next

variable [Draws γ α]

theorem runPhase_delivers (settled : run.Settled root) (overflow : allowed .overflow)
    (phase : Phase) (round : Nat) :
    Delivers allowed (fun next => next.1.Settled root ∧ SavesConsistent [next.2])
      (run.runPhase phase round) := by
  apply (transform_delivers settled overflow phase).bind
  intro changed isChanged
  refine (improve_delivers isChanged overflow (some phase) round _).bind
    fun (next, stage) ⟨settled, _⟩ => ⟨settled, fun entry member => ?_⟩
  obtain rfl : entry = _ := List.mem_singleton.mp member
  exact settled.checkpoint settled.best

theorem Reaches.settled {start : Run α γ} (reaches : start.Reaches run)
    (settled : start.Settled root) : run.Settled root := by
  induction reaches with
  | start => exact settled
  | phase before phase round done ih =>
    exact ((runPhase_delivers ih any_overflow phase round).of_ok done).1
  | loop before round limits done ih =>
    exact ((improve_delivers ih.changed any_overflow none round limits).of_ok done).1

theorem Reaches.runPhases {start next : Run α γ} (reaches : start.Reaches run)
    {phases : List Phase} {round : Nat} (done : (Run.runPhases round phases run).2 = .ok next) :
    start.Reaches next := by
  induction phases generalizing run with
  | nil => exact Except.ok.inj done ▸ reaches
  | cons phase rest ih =>
    unfold Run.runPhases at done
    cases ran : run.runPhase phase round with
    | error fault => simp [ran] at done
    | ok after =>
      rw [ran] at done
      exact ih (reaches.phase phase round ran) done

/-- What the rounds of a run lead to is reached by their phases. -/
theorem Reaches.runRounds {start next : Run α γ} (reaches : start.Reaches run)
    {phases : List Phase} {round count : Nat}
    (done : (Run.runRounds phases round count run).2 = .ok next) : start.Reaches next := by
  induction count generalizing run round with
  | zero => exact Except.ok.inj done ▸ reaches
  | succ count ih =>
    unfold Run.runRounds at done
    cases ran : Run.runPhases round phases run with
    | mk stages result =>
      rw [ran] at done
      cases result with
      | error fault => cases done
      | ok after => exact ih (reaches.runPhases (congrArg Prod.snd ran)) done

/-- Phases one after the other: what they save is consistent, also if one of them fails. -/
theorem runPhases_delivers (settled : run.Settled root) (overflow : allowed .overflow)
    (phases : List Phase) (round : Nat) :
    SavesConsistent (runPhases round phases run).1 ∧
      Delivers allowed (·.Settled root) (runPhases round phases run).2 := by
  induction phases generalizing run with
  | nil => exact ⟨fun _ member => absurd member List.not_mem_nil, settled⟩
  | cons phase rest ih =>
    have ran := runPhase_delivers settled overflow phase round
    unfold runPhases
    cases done : run.runPhase phase round with
    | error fault =>
      rw [done] at ran
      exact ⟨fun _ member => absurd member List.not_mem_nil, ran⟩
    | ok next =>
      obtain ⟨next, stage⟩ := next
      rw [done] at ran
      obtain ⟨nextSettled, saved⟩ := ran
      obtain ⟨later, final⟩ := ih nextSettled
      exact ⟨saved.append later, final⟩

theorem runRounds_delivers (settled : run.Settled root) (overflow : allowed .overflow)
    (phases : List Phase) (round count : Nat) :
    SavesConsistent (runRounds phases round count run).1 ∧
      Delivers allowed (·.Settled root) (runRounds phases round count run).2 := by
  induction count generalizing run round with
  | zero => exact ⟨fun _ member => absurd member List.not_mem_nil, settled⟩
  | succ count ih =>
    have ran := runPhases_delivers settled overflow phases round
    unfold runRounds
    generalize runPhases round phases run = first at ran
    obtain ⟨stages, fault | next⟩ := first
    · exact ran
    · obtain ⟨saved, nextSettled⟩ := ran
      obtain ⟨later, final⟩ := ih nextSettled (round + 1)
      exact ⟨saved.append later, final⟩

omit [TotalOrder α] [Draws γ α] in
theorem close_delivers (settled : run.Settled root) (overflow : allowed .overflow)
    (stages : List (Stage α)) :
    Delivers allowed (·.checkpoint.Consistent) (run.close stages) := by
  refine (resizeTrees_delivers settled.changed settled.candidate.categories_eq overflow).bind
    fun sized ⟨train, validation, same, _, validationFits⟩ => ?_
  subst same
  obtain ⟨-, evaluated⟩ : Pass.Sound allowed _ _ _ :=
    evaluate_sound settled.candidate validationFits
  refine evaluated.bind fun outcome _ => settled.checkpoint ?_
  dsimp only
  split
  · exact settled.candidate
  · split
    · exact settled.candidate
    · exact settled.best

omit [TotalOrder α] [Draws γ α] in
theorem conclude_delivers (settled : run.Settled root) (overflow : allowed .overflow)
    (stages : List (Stage α)) :
    Delivers allowed (·.checkpoint.Consistent) (run.conclude stages) := by
  refine Delivers.ite (fun _ => ?_) fun _ => close_delivers settled overflow stages
  exact (improve_delivers settled.changed overflow none 0 _).bind
    fun _ ⟨settled, _⟩ => close_delivers settled overflow _

omit [TotalOrder α] in
theorem roundCount_delivers (config : Config α) (overflow : allowed .overflow) :
    Delivers allowed (fun _ => True) config.roundCount := by
  apply Delivers.ite
  · intro _
    exact trivial
  intro _
  exact (delivers_word overflow).bind fun _ _ => trivial

omit [Scalar α] [TotalOrder α] in
theorem sound_of_conclusion {stages : List (Stage α)} (saved : SavesConsistent stages)
    {result : Except Fault (Report α)}
    (concluded : Delivers Overflow (·.checkpoint.Consistent) result) :
    Attempt.Sound ⟨stages, lift result⟩ := by
  cases result with
  | error fault =>
    obtain rfl : fault = .overflow := concluded
    refine ⟨fun entry member => saved entry ?_, fun _ same => (Except.error.inj same).symm⟩
    simpa [Attempt.saves, lift, Except.mapError] using member
  | ok report =>
    refine ⟨fun entry member => ?_, fun _ absent => nomatch absent⟩
    rcases List.mem_append.mp member with earlier | final
    · exact saved entry earlier
    · obtain rfl : entry = _ := List.mem_singleton.mp final
      exact concluded

theorem execute_sound (settled : run.Settled root) : run.execute.Sound := by
  have counted := roundCount_delivers run.config overflow_overflow
  unfold execute
  cases known : run.config.roundCount with
  | error fault =>
    rw [known] at counted
    have concluded : Delivers Overflow (fun report : Report α => report.checkpoint.Consistent)
        (.error fault) := counted
    exact sound_of_conclusion (fun _ member => absurd member List.not_mem_nil) concluded
  | ok count =>
    obtain ⟨saved, ran⟩ := runRounds_delivers settled overflow_overflow run.config.phases 1 count
    exact sound_of_conclusion saved (ran.bind fun next settled =>
      conclude_delivers settled overflow_overflow _)

theorem mapError_eq_ok_iff {β ε ε' : Type} {f : ε → ε'} {result : Except ε β} {value : β} :
    result.mapError f = .ok value ↔ result = .ok value := by
  cases result <;> simp [Except.mapError]

theorem check_eq_ok_iff {β ε : Type} {condition : Prop} [Decidable condition] {fault : ε}
    {next : Unit → Except ε β} {value : β} :
    (if condition then throw fault >>= next else next ()) = .ok value ↔
      ¬condition ∧ next () = .ok value := by
  by_cases failed : condition
  · simp [failed, throw, throwThe, MonadExceptOf.throw, Bind.bind, Except.bind]
  · simp [failed]

omit [TotalOrder α] [Draws γ α] in
/-- Settings that pass validation ask for some substates. -/
theorem substates_of_validate {config : Config α} {output : String}
    (validated : config.validate = .ok output) : 1 ≤ config.substates := by
  unfold Config.validate at validated
  split at validated
  · simp only [check_eq_ok_iff] at validated
    obtain ⟨-, -, -, some, -⟩ := validated
    exact Nat.one_le_iff_ne_zero.mpr (by simpa using some)
  · cases validated

/-- Categories and substates that a run can start from, with or without a model of them. -/
structure Origin (vocabulary : Vocabulary) (substates : List Nat) (resumed : Option (Model α)) :
    Prop where
  indexed : vocabulary.Indexed
  goesOn : ∀ model, resumed = some model → model.substates = substates ∧
    ∀ root, vocabulary.root? = some root → model.Consistent vocabulary.size root
  starts : resumed = none → ∀ root, vocabulary.root? = some root →
    SubstatesFit substates vocabulary.size root

variable {config : Config α} {sources : Sources α} {corpus : Corpus}

omit [Scalar α] [TotalOrder α] [Draws γ α] in
theorem origin_of_ok {origin : Vocabulary × List Nat × Option (Model α)}
    (positive : 1 ≤ config.substates)
    (loaded : ∀ path checkpoint, config.resume = some path →
      sources.checkpoint path = .ok checkpoint → checkpoint.Consistent)
    (found : Run.origin config sources corpus = .ok origin) :
    Origin origin.1 origin.2.1 origin.2.2 := by
  unfold Run.origin at found
  cases resumes : config.resume with
  | some path =>
    simp only [resumes, within] at found
    obtain ⟨checkpoint, read, done⟩ := bind_eq_ok_iff.mp found
    obtain rfl := Except.ok.inj done
    obtain ⟨root, rooted, consistent⟩ := loaded path checkpoint resumes
      (mapError_eq_ok_iff.mp (mapError_eq_ok_iff.mp read))
    refine ⟨Vocabulary.indexed_indexed _, fun model same => ?_, fun absent => nomatch absent⟩
    obtain rfl := Option.some.inj same
    constructor
    · rfl
    · intro other again
      cases rooted.symm.trans again
      exact consistent
  | none =>
    simp only [resumes] at found
    obtain rfl := Except.ok.inj found
    have indexed := indexed_numberCategories (Vocabulary.indexed_empty Treebank.defaultRoot)
      (corpus.train ++ corpus.validation)
    refine ⟨indexed, fun _ absent => (nomatch absent), fun _ root rooted => ?_⟩
    refine initialSubstates_fit indexed rooted ?_
    split
    · exact Nat.le_refl 1
    · exact positive

omit [TotalOrder α] in
theorem startingModel_of_ok {vocabulary : Vocabulary} {substates : List Nat}
    {resumed : Option (Model α)} {root : Nat} {train : Forest α} {stream : γ}
    {started : Model α × γ} (origin : Origin vocabulary substates resumed)
    (rooted : vocabulary.root? = some root) (fits : train.Fits substates)
    (found : startingModel config root train resumed stream = .ok started) :
    started.1.Consistent vocabulary.size root ∧ started.1.substates = substates := by
  cases resumed with
  | some model =>
    obtain rfl := Except.ok.inj found
    obtain ⟨same, consistent⟩ := origin.goesOn model rfl
    exact ⟨consistent root rooted, same⟩
  | none =>
    obtain rfl := fits.substates_eq
    exact (firstModel_delivers (origin.starts rfl root rooted) fits.trees any_overflow
      stream).of_ok found

omit [TotalOrder α] in
theorem prepare_settled {seeded : Nat → γ} {start : Run α γ}
    (loaded : ∀ path checkpoint, config.resume = some path →
      sources.checkpoint path = .ok checkpoint → checkpoint.Consistent)
    (prepared : prepare seeded config sources corpus = .ok start) : ∃ root, start.Settled root := by
  unfold prepare at prepared
  obtain ⟨output, validated, prepared⟩ := bind_eq_ok_iff.mp prepared
  obtain ⟨⟨vocabulary, substates, resumed⟩, found, prepared⟩ := bind_eq_ok_iff.mp prepared
  have origin := origin_of_ok (substates_of_validate (mapError_eq_ok_iff.mp validated)) loaded found
  dsimp only at origin prepared
  split at prepared
  · rename_i root rooted
    obtain ⟨train, trainBuilt, prepared⟩ := bind_eq_ok_iff.mp prepared
    obtain ⟨validation, validationBuilt, prepared⟩ := bind_eq_ok_iff.mp prepared
    obtain ⟨⟨model, stream⟩, started, done⟩ := bind_eq_ok_iff.mp prepared
    obtain rfl := Except.ok.inj done
    have validationFits := Forest.ofTrees_fits
      (mapError_eq_ok_iff.mp (mapError_eq_ok_iff.mp validationBuilt))
    have trainFits := Forest.ofTrees_fits
      (mapError_eq_ok_iff.mp (mapError_eq_ok_iff.mp trainBuilt))
    have prunedFits : Forest.Fits (if config.lexicon == .simple then
        train.replaceRare signature config.rareWordThreshold else train) substates := by
      split
      · exact trainFits.replaceRare _ _
      · exact trainFits
    obtain ⟨consistent, rfl⟩ := startingModel_of_ok origin rooted prunedFits
      (mapError_eq_ok_iff.mp started)
    exact ⟨root, origin.indexed, rooted, consistent, consistent, rfl, prunedFits, validationFits⟩
  · cases prepared

/-- What a phase makes of a run before its inner loop, or the run itself for a loop without one. -/
def Becomes (run changed : Run α γ) : Prop :=
  changed = run ∨ ∃ phase, run.transform phase = .ok changed

/-- A model scores a forest in one of the passes that follow on a run: those of a merge, those of
the inner loop of a phase, and the last one of all. -/
inductive Scores (run : Run α γ) : Model α → Forest α → Prop
  | weights : Scores run run.best run.train
  | losses : Scores run run.best (Pass.ofSweep run.train (run.best.mergeWeights run.train)).1
  | lexicon {model : Model α} {train : Forest α} (merged : run.merged = .ok (model, train)) :
      Scores run model train
  | opening {changed sized : Run α γ} (becomes : run.Becomes changed)
      (fitted : changed.resizeTrees changed.best.substates = .ok sized) :
      Scores run sized.best sized.validation
  | heldOut {changed : Run α γ} {first loop : Loop α} {limits : InnerLoop.Limits}
      (becomes : run.Becomes changed) (entered : changed.enter = .ok first)
      (leads : first.Leads changed.config limits loop) :
      Scores run loop.progress.latest loop.sets.validation
  | training {changed : Run α γ} {first loop : Loop α} {limits : InnerLoop.Limits}
      (becomes : run.Becomes changed) (entered : changed.enter = .ok first)
      (leads : first.Leads changed.config limits loop) :
      Scores run loop.progress.latest loop.sets.train
  | closing {sized : Run α γ} (fitted : run.resizeTrees run.candidate.substates = .ok sized) :
      Scores run sized.candidate sized.validation

theorem Becomes.changed {changed : Run α γ} (becomes : run.Becomes changed)
    (settled : run.Settled root) : changed.Changed root := by
  rcases becomes with rfl | ⟨phase, done⟩
  · exact settled.changed
  · exact (transform_delivers settled any_overflow phase).of_ok done

/-- Where a model scores a forest, the forest was made for its numbers of substates. -/
theorem Scores.fits {model : Model α} {forest : Forest α} (scores : run.Scores model forest)
    (settled : run.Settled root) : forest.Fits model.substates := by
  have entry {changed : Run α γ} {first loop : Loop α} {limits : InnerLoop.Limits}
      (becomes : run.Becomes changed) (entered : changed.enter = .ok first)
      (leads : first.Leads changed.config limits loop) :
      loop.Steady changed.best.substates changed.vocabulary.size root :=
    leads.steady ((enter_delivers (becomes.changed settled) any_overflow).of_ok entered)
  cases scores with
  | weights => exact settled.train
  | losses =>
    exact (Model.mergeWeights_sound settled.best settled.train any_overflow).1
  | lexicon merged =>
    exact ((merged_delivers settled any_overflow).of_ok merged).2
  | opening becomes fitted =>
    have changed := becomes.changed settled
    obtain ⟨train, validation, rfl, -, fits⟩ := (resizeTrees_delivers changed
      changed.best.categories_eq any_overflow).of_ok fitted
    exact fits
  | heldOut becomes entered leads =>
    have steady := entry becomes entered leads
    exact steady.latestSubstates ▸ steady.validation
  | training becomes entered leads =>
    have steady := entry becomes entered leads
    exact steady.latestSubstates ▸ steady.train
  | closing fitted =>
    obtain ⟨train, validation, rfl, -, fits⟩ := (resizeTrees_delivers settled.changed
      settled.candidate.categories_eq any_overflow).of_ok fitted
    exact fits

/-- Best and latest model are consistent over the categories of the run. -/
def Consistent (run : Run α γ) : Prop :=
  ∃ root, run.vocabulary.root? = some root ∧
    run.best.Consistent run.vocabulary.size root ∧
    run.candidate.Consistent run.vocabulary.size root

/-- The invariant of a run that could be prepared, from whatever consistent checkpoint it goes on:
after any phases in any order, and so after any part of the rounds, both models are consistent,
forests are scored by models of their numbers of substates only, and neither a further phase nor the
run as a whole fails in any other way than for lack of room. -/
theorem consistent_throughout (seeded : Nat → γ) (config : Config α) (sources : Sources α)
    (corpus : Corpus) (start : Run α γ)
    (loaded : ∀ path checkpoint, config.resume = some path →
      sources.checkpoint path = .ok checkpoint → checkpoint.Consistent)
    (prepared : prepare seeded config sources corpus = .ok start) :
    (∀ run, start.Reaches run → run.Consistent ∧
      (∀ model forest, run.Scores model forest → forest.Fits model.substates) ∧
      (∀ phase changed, run.transform phase = .ok changed → changed.Consistent) ∧
      ∀ phase round fault, run.runPhase phase round = .error fault → fault = .overflow) ∧
    (∀ run next phases round count, start.Reaches run →
      (runRounds phases round count run).2 = .ok next → start.Reaches next) ∧
    start.execute.Sound := by
  obtain ⟨root, settled⟩ := prepare_settled loaded prepared
  refine ⟨fun run reaches => ?_, fun _ _ _ _ _ reaches done => reaches.runRounds done,
    execute_sound settled⟩
  have reached := reaches.settled settled
  refine ⟨⟨root, reached.rooted, reached.best, reached.candidate⟩, fun model forest scores =>
    scores.fits reached, fun phase changed done => ?_, fun phase round fault failed => ?_⟩
  · have isChanged : changed.Changed root := Becomes.changed (.inr ⟨phase, done⟩) reached
    exact ⟨root, isChanged.rooted, isChanged.best, isChanged.candidate⟩
  · have ran := runPhase_delivers reached overflow_overflow phase round
    rw [failed] at ran
    exact ran

/-- Numbers are told apart down to a small fraction of one. -/
instance : TotalOrder Rat where
  key x := (x * (Word.limit : Rat)).floor

/-- A stream that always draws the middle of the interval is one without noise. -/
instance : Draws Unit Rat where
  draw stream := (1 / 2, stream)

/-- One round for a small corpus, from a checkpoint or from nothing. -/
def sampleConfig (resume : Option String) : Config Rat :=
  { Config.standard with
    output := some "model"
    resume
    rounds := 1
    substates := 2
    lexicon := .simple }

def sampleCheckpoint : Checkpoint Rat where
  model := sampleModel
  vocabulary := .unindexed ["ROOT", "S"] "ROOT"
  substates := [1, 2]
  vertical := 1
  horizontal := 0
  binarization := .right

def sampleSources : Sources Rat where
  text _ := .error .unreadable
  checkpoint _ := .ok sampleCheckpoint

def sampleCorpus : Corpus :=
  let sentence : Tree := .node "ROOT"
    [.node "S" [.node "S" [.node "rain" []], .node "S" [.node "fell" []]]]
  ⟨[sentence], [sentence]⟩

theorem sampleModel_consistent : sampleModel.Consistent 2 0 where
  categories_eq := rfl
  root_eq := rfl
  single := rfl
  positive := by decide
  ancestry := sampleModel_lexicon_consistent.ancestry
  rules := sampleModel_rules_fit
  substates_eq := rfl
  lexiconRoot_eq := rfl
  ancestry_eq := rfl
  tables := sampleModel_lexicon_consistent.tables

theorem sampleCheckpoint_consistent : sampleCheckpoint.Consistent :=
  ⟨0, by decide, sampleModel_consistent⟩

theorem isOk_sampleRuns : ∀ resume ∈ [none, some "saved"],
    (prepare (fun _ => ()) (sampleConfig resume) sampleSources sampleCorpus).isOk = true := by
  decide +kernel

theorem sampleRuns_consistent_throughout :
    (∃ start, prepare (fun _ => ()) (sampleConfig none) sampleSources sampleCorpus = .ok start ∧
      start.Consistent ∧ start.execute.Sound) ∧
    ∃ start, prepare (fun _ => ()) (sampleConfig (some "saved")) sampleSources sampleCorpus =
      .ok start ∧ start.Consistent ∧ start.execute.Sound := by
  have prepared (resume : Option String) (chosen : resume ∈ [none, some "saved"]) :
      ∃ start, prepare (fun _ => ()) (sampleConfig resume) sampleSources sampleCorpus =
        .ok start ∧ start.Consistent ∧ start.execute.Sound := by
    have succeeds := isOk_sampleRuns resume chosen
    cases done : prepare (fun _ => ()) (sampleConfig resume) sampleSources sampleCorpus with
    | error fault => simp [done, Except.isOk, Except.toBool] at succeeds
    | ok start =>
      obtain ⟨reached, -, executed⟩ := consistent_throughout (fun _ => ()) (sampleConfig resume)
        sampleSources sampleCorpus start (fun path checkpoint _ found =>
          Except.ok.inj found ▸ sampleCheckpoint_consistent) done
      exact ⟨start, rfl, (reached start .start).1, executed⟩
  exact ⟨prepared none (by simp), prepared (some "saved") (by simp)⟩

end Run

end Training

end LatentGrammar
