import LatentGrammar.Proofs.Seeds.Draws
import LatentGrammar.Proofs.HeldOut.Best
import LatentGrammar.Proofs.Splitting.Shares

namespace LatentGrammar

namespace Training

variable {α γ : Type} [Scalar α]

namespace Run

/-- Runs without noise that differ in nothing but the seed of their settings and what is left of
their streams. -/
structure Twins (run other : Run α γ) : Prop where
  quiet : run.config.noise = 0
  reseeded : ∃ seed stream, other = { run with config := { run.config with seed }, stream }

theorem Twins.symm {run other : Run α γ} (twins : run.Twins other) : other.Twins run := by
  obtain ⟨quiet, seed, stream, rfl⟩ := twins
  exact ⟨quiet, run.config.seed, run.stream, rfl⟩

variable {run other : Run α γ}

theorem Twins.best_eq (twins : run.Twins other) : other.best = run.best := by
  obtain ⟨-, seed, stream, rfl⟩ := twins
  rfl

theorem Twins.candidate_eq (twins : run.Twins other) : other.candidate = run.candidate := by
  obtain ⟨-, seed, stream, rfl⟩ := twins
  rfl

theorem Twins.validation_eq (twins : run.Twins other) : other.validation = run.validation := by
  obtain ⟨-, seed, stream, rfl⟩ := twins
  rfl

theorem split_agree [Draws γ α] (noiseless : Noiseless γ α) (twins : run.Twins other) :
    Agree Twins run.split other.split := by
  obtain ⟨quiet, seed, stream, rfl⟩ := twins
  refine Agree.bind_same fun counts => ?_
  have same := noiseless.splitModel_agree run.best counts
    run.config.allowMoreSubstatesThanCounts run.stream stream
  rw [← quiet] at same
  refine same.bind fun (best, left) (_, left') same => .ok ?_
  obtain rfl : best = _ := same
  exact ⟨quiet, seed, left', rfl⟩

theorem merge_agree [TotalOrder α] (twins : run.Twins other) :
    Agree Twins run.merge other.merge := by
  obtain ⟨quiet, seed, stream, rfl⟩ := twins
  rw [merge_eq, merge_eq]
  have same : Agree Eq run.merged
      (merged { run with config := { run.config with seed }, stream }) := Agree.refl run.merged
  refine same.bind fun (merged, train) _ same => ?_
  subst same
  exact Agree.bind_same fun retrained => .ok ⟨quiet, seed, stream, rfl⟩

theorem transform_agree [Draws γ α] [TotalOrder α] (noiseless : Noiseless γ α)
    (twins : run.Twins other) (phase : Phase) :
    Agree Twins (run.transform phase) (other.transform phase) := by
  cases phase with
  | split => exact split_agree noiseless twins
  | merge => exact merge_agree twins
  | smooth =>
    obtain ⟨quiet, seed, stream, rfl⟩ := twins
    exact .ok ⟨quiet, seed, stream, rfl⟩

theorem resizeTrees_agree (twins : run.Twins other) (substates : List Nat) :
    Agree Twins (run.resizeTrees substates) (other.resizeTrees substates) := by
  obtain ⟨quiet, seed, stream, rfl⟩ := twins
  exact Agree.bind_same fun train => Agree.bind_same fun validation =>
    .ok ⟨quiet, seed, stream, rfl⟩

theorem enter_eq_of_twins (twins : run.Twins other) : run.enter = other.enter := by
  unfold enter
  rw [twins.best_eq]
  refine ((resizeTrees_agree twins run.best.substates).bind fun sized sized' twins => ?_).eq
  obtain ⟨quiet, seed, stream, rfl⟩ := twins
  exact Agree.refl _

/-- Iterations do not look at the seed. -/
theorem leads_of_twins (twins : run.Twins other) {limits : InnerLoop.Limits} {first loop : Loop α}
    (leads : first.Leads run.config limits loop) : first.Leads other.config limits loop := by
  obtain ⟨quiet, seed, stream, rfl⟩ := twins
  induction leads with
  | start => exact .start
  | step before done ih => exact ih.step done

theorem improve_agree (twins : run.Twins other) (phase : Option Phase) (round : Nat)
    (limits : InnerLoop.Limits) :
    Agree (fun next next' => next.1.Twins next'.1 ∧ next.2 = next'.2)
      (run.improve phase round limits) (other.improve phase round limits) := by
  rw [improve_eq, improve_eq, enter_eq_of_twins twins]
  obtain ⟨quiet, seed, stream, rfl⟩ := twins
  exact Agree.bind_same fun loop => Agree.bind_same fun outcome =>
    .ok ⟨⟨quiet, seed, stream, rfl⟩, rfl⟩

variable [TotalOrder α] [Draws γ α]

theorem runPhase_agree (noiseless : Noiseless γ α) (twins : run.Twins other) (phase : Phase)
    (round : Nat) :
    Agree (fun next next' => next.1.Twins next'.1 ∧ next.2 = next'.2)
      (run.runPhase phase round) (other.runPhase phase round) := by
  refine (transform_agree noiseless twins phase).bind fun changed changed' twins => ?_
  have limits : phase.limits changed'.config = phase.limits changed.config := by
    obtain ⟨quiet, seed, stream, rfl⟩ := twins
    cases phase <;> rfl
  rw [limits]
  refine (improve_agree twins (some phase) round _).bind
    fun (next, stage) (next', _) ⟨twins, same⟩ => ?_
  obtain rfl : stage = _ := same
  obtain ⟨quiet, seed, stream, rfl⟩ := twins
  exact .ok ⟨⟨quiet, seed, stream, rfl⟩, rfl⟩

theorem runPhases_agree (noiseless : Noiseless γ α) (twins : run.Twins other) (phases : List Phase)
    (round : Nat) :
    (runPhases round phases run).1 = (runPhases round phases other).1 ∧
      Agree Twins (runPhases round phases run).2 (runPhases round phases other).2 := by
  induction phases generalizing run other with
  | nil => exact ⟨rfl, .ok twins⟩
  | cons phase rest ih =>
    have ran := runPhase_agree noiseless twins phase round
    unfold runPhases
    generalize run.runPhase phase round = one at ran
    generalize other.runPhase phase round = two at ran
    cases ran with
    | error fault => exact ⟨rfl, .error fault⟩
    | @ok next next' related =>
      obtain ⟨next, stage⟩ := next
      obtain ⟨next', _⟩ := next'
      obtain ⟨twins, rfl⟩ := related
      obtain ⟨stages, last⟩ := ih twins
      exact ⟨congrArg (stage :: ·) stages, last⟩

theorem runRounds_agree (noiseless : Noiseless γ α) (twins : run.Twins other) (phases : List Phase)
    (round count : Nat) :
    (runRounds phases round count run).1 = (runRounds phases round count other).1 ∧
      Agree Twins (runRounds phases round count run).2 (runRounds phases round count other).2 := by
  induction count generalizing run other round with
  | zero => exact ⟨rfl, .ok twins⟩
  | succ count ih =>
    obtain ⟨stages, ran⟩ := runPhases_agree noiseless twins phases round
    unfold runRounds
    generalize runPhases round phases run = one at stages ran
    generalize runPhases round phases other = two at stages ran
    obtain ⟨earlier, one⟩ := one
    obtain ⟨_, two⟩ := two
    subst stages
    cases ran with
    | error fault => exact ⟨rfl, .error fault⟩
    | ok twins =>
      obtain ⟨later, last⟩ := ih twins (round + 1)
      exact ⟨congrArg (earlier ++ ·) later, last⟩

omit [TotalOrder α] [Draws γ α] in
theorem close_agree (twins : run.Twins other) (stages : List (Stage α)) :
    Agree Eq (run.close stages) (other.close stages) := by
  unfold close
  rw [twins.candidate_eq]
  refine (resizeTrees_agree twins run.candidate.substates).bind fun sized sized' twins => ?_
  obtain ⟨quiet, seed, stream, rfl⟩ := twins
  exact Agree.refl _

omit [TotalOrder α] [Draws γ α] in
theorem conclude_agree (twins : run.Twins other) (stages : List (Stage α)) :
    Agree Eq (run.conclude stages) (other.conclude stages) := by
  rw [conclude_eq, conclude_eq]
  have last : Agree (fun next next' => next.1.Twins next'.1 ∧ next.2 = next'.2)
      (run.lastLoop stages) (other.lastLoop stages) := by
    have improved := improve_agree twins none 0 run.config.baselineLimits
    obtain ⟨quiet, seed, stream, rfl⟩ := twins
    unfold lastLoop
    dsimp only
    split
    · refine improved.bind fun (next, stage) (next', _) ⟨twins, same⟩ => .ok ⟨twins, ?_⟩
      rw [same]
    · exact .ok ⟨⟨quiet, seed, stream, rfl⟩, rfl⟩
  refine last.bind fun (next, stages) (next', _) ⟨twins, same⟩ => ?_
  obtain rfl : stages = _ := same
  exact close_agree twins stages

theorem execute_eq_of_twins (noiseless : Noiseless γ α) (twins : run.Twins other) :
    run.execute = other.execute := by
  have counts : other.config.roundCount = run.config.roundCount := by
    obtain ⟨quiet, seed, stream, rfl⟩ := twins
    rfl
  have phases : other.config.phases = run.config.phases := by
    obtain ⟨quiet, seed, stream, rfl⟩ := twins
    rfl
  unfold execute
  rw [counts, phases]
  cases run.config.roundCount with
  | error fault => rfl
  | ok count =>
    obtain ⟨stages, ran⟩ := runRounds_agree noiseless twins run.config.phases 1 count
    have concluded := ran.bind fun _ _ twins => conclude_agree twins
      (runRounds run.config.phases 1 count run).1
    dsimp only
    rw [← stages]
    exact congrArg (Attempt.mk _ <| lift ·) concluded.eq

omit [TotalOrder α] in
/-- A resumed model draws nothing, and a first one only noise. -/
theorem startingModel_agree (noiseless : Noiseless γ α) {config : Config α}
    (quiet : config.noise = 0) (root : Nat) (train : Forest α) (resumed : Option (Model α))
    (one two : γ) :
    Agree SameValue (startingModel config root train resumed one)
      (startingModel config root train resumed two) := by
  cases resumed with
  | some model => exact .ok rfl
  | none => exact noiseless.firstModel_agree train quiet one two

omit [TotalOrder α] in
theorem prepare_agree (noiseless : Noiseless γ α) (seeded : Nat → γ) {config : Config α}
    (quiet : config.noise = 0) (seed : Nat) (sources : Sources α) (corpus : Corpus) :
    Agree Twins (prepare seeded config sources corpus)
      (prepare seeded { config with seed } sources corpus) := by
  unfold prepare
  refine Agree.bind_same fun output => Agree.bind_same fun (vocabulary, substates, resumed) => ?_
  dsimp only
  split
  · rename_i root rooted
    refine Agree.bind_same fun train => Agree.bind_same fun validation => ?_
    refine ((startingModel_agree noiseless quiet root _ resumed (seeded config.seed)
      (seeded seed)).mapError RunFault.model).bind fun (model, stream) (_, stream') same => ?_
    obtain rfl : model = _ := same
    exact .ok ⟨quiet, seed, stream', rfl⟩
  · exact .error _

theorem Reaches.twin (noiseless : Noiseless γ α) {start start' : Run α γ}
    (twins : start.Twins start') (reaches : start.Reaches run) :
    ∃ other, start'.Reaches other ∧ run.Twins other := by
  induction reaches with
  | start => exact ⟨start', .start, twins⟩
  | phase before phase round done ih =>
    obtain ⟨other, reached, twins⟩ := ih
    obtain ⟨⟨next', stage'⟩, done', twins, -⟩ :=
      (runPhase_agree noiseless twins phase round).of_ok done
    exact ⟨next', reached.phase phase round done', twins⟩
  | loop before round limits done ih =>
    obtain ⟨other, reached, twins⟩ := ih
    obtain ⟨⟨next', stage'⟩, done', twins, -⟩ := (improve_agree twins none round limits).of_ok done
    exact ⟨next', reached.loop round limits done', twins⟩

theorem Becomes.twin (noiseless : Noiseless γ α) (twins : run.Twins other) {changed : Run α γ}
    (becomes : run.Becomes changed) : ∃ changed', other.Becomes changed' ∧ changed.Twins changed' := by
  rcases becomes with rfl | ⟨phase, done⟩
  · exact ⟨other, .inl rfl, twins⟩
  · obtain ⟨changed', done', twins⟩ := (transform_agree noiseless twins phase).of_ok done
    exact ⟨changed', .inr ⟨phase, done'⟩, twins⟩

theorem Scores.twin (noiseless : Noiseless γ α) (twins : run.Twins other) {model : Model α}
    {forest : Forest α} (scores : run.Scores model forest) : other.Scores model forest := by
  have enters {changed changed' : Run α γ} (twins : changed.Twins changed') {first loop : Loop α}
      {limits : InnerLoop.Limits} (entered : changed.enter = .ok first)
      (leads : first.Leads changed.config limits loop) :
      changed'.enter = .ok first ∧ first.Leads changed'.config limits loop :=
    ⟨enter_eq_of_twins twins ▸ entered, leads_of_twins twins leads⟩
  cases scores with
  | weights =>
    obtain ⟨quiet, seed, stream, rfl⟩ := twins
    exact .weights
  | losses =>
    obtain ⟨quiet, seed, stream, rfl⟩ := twins
    exact .losses
  | lexicon merged =>
    obtain ⟨quiet, seed, stream, rfl⟩ := twins
    exact .lexicon merged
  | opening becomes fitted =>
    obtain ⟨changed', becomes', twins⟩ := becomes.twin noiseless twins
    rw [← twins.best_eq] at fitted
    obtain ⟨sized', fitted', twins⟩ := (resizeTrees_agree twins _).of_ok fitted
    rw [← twins.best_eq, ← twins.validation_eq]
    exact .opening becomes' fitted'
  | heldOut becomes entered leads =>
    obtain ⟨changed', becomes', twins⟩ := becomes.twin noiseless twins
    obtain ⟨entered', leads'⟩ := enters twins entered leads
    exact .heldOut becomes' entered' leads'
  | training becomes entered leads =>
    obtain ⟨changed', becomes', twins⟩ := becomes.twin noiseless twins
    obtain ⟨entered', leads'⟩ := enters twins entered leads
    exact .training becomes' entered' leads'
  | closing fitted =>
    rw [← twins.candidate_eq] at fitted
    obtain ⟨sized', fitted', twins⟩ := (resizeTrees_agree twins _).of_ok fitted
    rw [← twins.candidate_eq, ← twins.validation_eq]
    exact .closing fitted'

/-- Two runs at the same place: the next phase makes the same of both, and the same trees are scored
by the same models before and after it. -/
structure InStep (run other : Run α γ) : Prop where
  twins : run.Twins other
  transform : ∀ phase, Agree Twins (run.transform phase) (other.transform phase)
  scores : ∀ model forest, run.Scores model forest ↔ other.Scores model forest

theorem Twins.inStep (noiseless : Noiseless γ α) (twins : run.Twins other) : run.InStep other :=
  ⟨twins, transform_agree noiseless twins, fun _ _ =>
    ⟨Scores.twin noiseless twins, Scores.twin noiseless twins.symm⟩⟩

/-- A run without noise does not depend on its seed. Preparation fails alike or leads to the same
first model, whatever one run reaches the other one reaches in step with it, and in the end both
have come to the same report or fault and saved the same checkpoints. -/
theorem same_from_any_seed (noiseless : Noiseless γ α) (seeded : Nat → γ) (config : Config α)
    (quiet : config.noise = 0) (seed : Nat) (sources : Sources α) (corpus : Corpus) :
    trainOn seeded config sources corpus =
        trainOn seeded { config with seed } sources corpus ∧
      Agree (fun start start' : Run α γ => start.InStep start' ∧ ∀ run, start.Reaches run →
          ∃ other, start'.Reaches other ∧ run.InStep other)
        (prepare seeded config sources corpus)
        (prepare seeded { config with seed } sources corpus) := by
  have prepared := prepare_agree noiseless seeded quiet seed sources corpus
  constructor
  · unfold trainOn
    generalize prepare seeded config sources corpus = one at prepared
    generalize prepare seeded { config with seed } sources corpus = two at prepared
    cases prepared with
    | ok twins => exact execute_eq_of_twins noiseless twins
    | error fault => rfl
  · refine prepared.mono fun start start' twins => ⟨twins.inStep noiseless, fun run reaches => ?_⟩
    obtain ⟨other, reached, twins⟩ := reaches.twin noiseless twins
    exact ⟨other, reached, twins.inStep noiseless⟩

/-- The small corpus without noise. -/
def quietConfig : Config Rat := { sampleConfig none with randomization := 0 }

/-- What is left of the streams is different. -/
theorem streams_quietRuns :
    (prepare (fun seed : Nat => seed) quietConfig sampleSources sampleCorpus).toOption.map
        (·.stream) = some 10 ∧
      (prepare (fun seed : Nat => seed) { quietConfig with seed := 7 } sampleSources
        sampleCorpus).toOption.map (·.stream) = some 15 := by
  decide +kernel

/-- Both runs start from the same model, although the one has drawn other numbers than the other. -/
theorem quietRuns_same :
    trainOn (fun seed : Nat => seed) quietConfig sampleSources sampleCorpus =
        trainOn (fun seed : Nat => seed) { quietConfig with seed := 7 } sampleSources sampleCorpus ∧
      ∃ start start' : Run Rat Nat,
        prepare (fun seed : Nat => seed) quietConfig sampleSources sampleCorpus = .ok start ∧
          start.InStep start' ∧ start.stream ≠ start'.stream := by
  obtain ⟨same, prepared⟩ := same_from_any_seed
    (Noiseless.of_laws (zero_div _) (fun _ => zero_mul _) (add_zero 1))
    (fun seed : Nat => seed) quietConfig (by decide) 7 sampleSources sampleCorpus
  obtain ⟨drawn, drawn'⟩ := streams_quietRuns
  refine ⟨same, ?_⟩
  generalize prepare (fun seed : Nat => seed) quietConfig sampleSources sampleCorpus = one
    at prepared drawn
  generalize prepare (fun seed : Nat => seed) { quietConfig with seed := 7 } sampleSources
    sampleCorpus = two at prepared drawn'
  cases prepared with
  | error fault => cases drawn
  | ok related =>
    refine ⟨_, _, rfl, related.1, fun equal => ?_⟩
    have drawn := Option.some.inj drawn
    have drawn' := Option.some.inj drawn'
    dsimp only at drawn drawn' equal
    omega

end Run

end Training

end LatentGrammar
