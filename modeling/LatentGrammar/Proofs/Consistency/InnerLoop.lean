import LatentGrammar.Proofs.Consistency.Phases

namespace LatentGrammar

variable {α γ : Type} {allowed : Fault → Prop}

namespace Training

/-- An inner loop between two iterations, with the trees that it works on. -/
structure Loop (α : Type) where
  progress : InnerLoop.Progress (Model α) α
  sets : Run.Forests α

/-- Both models of the loop are consistent, and both forests are made for them. -/
structure Loop.Steady (loop : Loop α) (substates : List Nat) (categories root : Nat) : Prop where
  best : loop.progress.best.Consistent categories root
  bestSubstates : loop.progress.best.substates = substates
  latest : loop.progress.latest.Consistent categories root
  latestSubstates : loop.progress.latest.substates = substates
  train : loop.sets.train.Fits substates
  validation : loop.sets.validation.Fits substates

variable [Scalar α] {config : Config α} {limits : InnerLoop.Limits} {substates : List Nat}
  {categories root : Nat}

namespace Loop

/-- One iteration: the latest model is scored on held-out trees, and the next one estimated from
training trees. -/
def step (config : Config α) (limits : InnerLoop.Limits) (loop : Loop α) :
    Except Fault (Loop α) := do
  let (validation, outcome) := evaluate loop.progress.latest loop.sets.validation
  let likelihood := (← outcome).logLikelihood
  let (train, next) := nextModel loop.progress.latest (Run.rare config) loop.sets.train
  return ⟨loop.progress.advance limits likelihood (← next).1, ⟨train, validation⟩⟩

/-- The loops that some iterations lead to. -/
inductive Leads (config : Config α) (limits : InnerLoop.Limits) (start : Loop α) : Loop α → Prop
  | start : Leads config limits start start
  | step {loop next : Loop α} (before : Leads config limits start loop)
      (done : loop.step config limits = .ok next) : Leads config limits start next

theorem step_delivers {loop : Loop α} (steady : loop.Steady substates categories root)
    (overflow : allowed .overflow) :
    Delivers allowed (·.Steady substates categories root) (loop.step config limits) := by
  obtain ⟨best, bestSubstates, latest, rfl, train, validation⟩ := steady
  obtain ⟨scored, evaluated⟩ : Pass.Sound allowed _ _ _ := evaluate_sound latest validation
  obtain ⟨counted, improved⟩ := nextModel_sound latest train overflow (Run.rare config)
  apply evaluated.bind
  intro outcome _
  apply improved.bind
  rintro next ⟨consistent, same⟩
  unfold InnerLoop.Progress.advance
  split
  · exact ⟨latest, rfl, consistent, same, counted, scored⟩
  · exact ⟨best, bestSubstates, consistent, same, counted, scored⟩

theorem Leads.steady {start loop : Loop α} (leads : Leads config limits start loop)
    (steady : start.Steady substates categories root) :
    loop.Steady substates categories root := by
  induction leads with
  | start => exact steady
  | step before done ih =>
    exact (step_delivers ih any_overflow).of_ok done

end Loop

theorem likelihood_run (model : Model α) (sets : Run.Forests α) :
    ((Run.improver config).likelihood model).run sets = (do
      let (validation, outcome) := evaluate model sets.validation
      return ((← outcome).logLikelihood, { sets with validation })) := by
  simp only [Run.improver, StateT.run_bind, StateT.run_get, StateT.run_set, pure_bind]
  cases (evaluate model sets.validation).2 <;> rfl

theorem improve_run (model : Model α) (sets : Run.Forests α) :
    ((Run.improver config).improve model).run sets = (do
      let (train, next) := nextModel model (Run.rare config) sets.train
      return ((← next).1, { sets with train })) := by
  simp only [Run.improver, StateT.run_bind, StateT.run_get, StateT.run_set, pure_bind]
  cases (nextModel model (Run.rare config) sets.train).2 <;> rfl

/-- The inner loop iterates until it has a reason to stop or has run out of iterations. -/
theorem iterate_run (more : Nat) (loop : Loop α) :
    (InnerLoop.iterate (Run.improver config) limits more loop.progress).run loop.sets = (do
      let next ← loop.step config limits
      match next.progress.stop? limits with
      | some reason => return (next.progress.result reason, next.sets)
      | none =>
        match more with
        | 0 => return (next.progress.result .maxIterations, next.sets)
        | more + 1 =>
          (InnerLoop.iterate (Run.improver config) limits more next.progress).run next.sets) := by
  rw [InnerLoop.iterate.eq_def]
  simp only [StateT.run_bind, likelihood_run, improve_run, Loop.step, bind_assoc, pure_bind]
  refine bind_congr fun outcome => bind_congr fun next => ?_
  cases (loop.progress.advance limits outcome.logLikelihood next.1).stop? limits with
  | some reason => rfl
  | none => cases more <;> rfl

/-- What an inner loop comes to agrees as its models and trees did. -/
structure Ended (outcome : InnerLoop.Result (Model α) α × Run.Forests α) (substates : List Nat)
    (categories root : Nat) : Prop where
  best : outcome.1.best.Consistent categories root
  bestSubstates : outcome.1.best.substates = substates
  candidate : outcome.1.candidate.Consistent categories root
  candidateSubstates : outcome.1.candidate.substates = substates
  train : outcome.2.train.Fits substates
  validation : outcome.2.validation.Fits substates

omit [Scalar α] in
theorem Loop.Steady.ended {loop : Loop α} (steady : loop.Steady substates categories root)
    (stop : InnerLoop.Ending) :
    Ended (loop.progress.result stop, loop.sets) substates categories root :=
  ⟨steady.best, steady.bestSubstates, steady.latest, steady.latestSubstates, steady.train,
    steady.validation⟩

theorem iterate_delivers {loop : Loop α} (steady : loop.Steady substates categories root)
    (overflow : allowed .overflow) (more : Nat) :
    Delivers allowed (Ended · substates categories root)
      ((InnerLoop.iterate (Run.improver config) limits more loop.progress).run loop.sets) := by
  induction more generalizing loop with
  | zero =>
    rw [iterate_run]
    apply (Loop.step_delivers steady overflow).bind
    intro next steady
    cases next.progress.stop? limits with
    | some reason => exact steady.ended reason
    | none => exact steady.ended .maxIterations
  | succ more ih =>
    rw [iterate_run]
    apply (Loop.step_delivers steady overflow).bind
    intro next steady
    cases next.progress.stop? limits with
    | some reason => exact steady.ended reason
    | none => exact ih steady

namespace Run

variable {run : Run α γ}

/-- The inner loop at its start: both sets of trees have got the sizes of the best model, whose
likelihood on held-out trees is known. -/
def enter (run : Run α γ) : Except Fault (Loop α) := do
  let run ← run.resizeTrees run.best.substates
  let (validation, outcome) := evaluate run.best run.validation
  return ⟨.start run.best (← outcome).logLikelihood, ⟨run.train, validation⟩⟩

theorem improve_eq (run : Run α γ) (phase : Option Phase) (round : Nat)
    (limits : InnerLoop.Limits) :
    run.improve phase round limits = (do
      let loop ← run.enter
      let (converged, sets) ←
        (InnerLoop.iterate (improver run.config) limits (limits.max - 1) loop.progress).run
          loop.sets
      return ({ run with
          train := sets.train
          validation := sets.validation
          best := converged.best
          bestLikelihood := some converged.bestLikelihood
          candidate := converged.candidate },
        { phase
          round
          substates := run.best.substates
          initialLikelihood := loop.progress.bestLikelihood
          bestLikelihood := converged.bestLikelihood
          iterations := converged.iterations
          stop := converged.stop
          checkpoint := none })) := by
  simp only [improve, enter, resizeTrees, InnerLoop.run, bind_assoc, pure_bind]
  rfl

theorem enter_delivers (changed : run.Changed root) (overflow : allowed .overflow) :
    Delivers allowed (·.Steady run.best.substates run.vocabulary.size root) run.enter := by
  refine (resizeTrees_delivers changed changed.best.categories_eq overflow).bind
    fun sized ⟨train, validation, same, trainFits, validationFits⟩ => ?_
  subst same
  obtain ⟨scored, evaluated⟩ : Pass.Sound allowed _ _ _ :=
    evaluate_sound changed.best validationFits
  exact evaluated.bind fun outcome _ =>
    ⟨changed.best, rfl, changed.best, rfl, trainFits, scored⟩

/-- An inner loop settles a run: its models have the same numbers of substates again, and the trees
have them too. -/
theorem improve_delivers (changed : run.Changed root) (overflow : allowed .overflow)
    (phase : Option Phase) (round : Nat) (limits : InnerLoop.Limits) :
    Delivers allowed (fun next => next.1.Settled root ∧ next.2.checkpoint = none)
      (run.improve phase round limits) := by
  rw [improve_eq]
  apply (enter_delivers changed overflow).bind
  intro loop steady
  apply (iterate_delivers steady overflow _).bind
  rintro ⟨converged, sets⟩ ended
  refine ⟨⟨changed.indexed, changed.rooted, ended.best, ended.candidate, ?_, ?_, ?_⟩, rfl⟩
  · exact ended.candidateSubstates.trans ended.bestSubstates.symm
  · exact ended.bestSubstates ▸ ended.train
  · exact ended.bestSubstates ▸ ended.validation

end Run

end Training

end LatentGrammar
