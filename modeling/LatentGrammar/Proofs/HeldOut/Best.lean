import LatentGrammar.Proofs.Consistency.Run
import LatentGrammar.Proofs.HeldOut.Likelihood

namespace LatentGrammar

namespace Training

variable {α γ : Type} [Scalar α] {skeletons : List (LatentTree Unit)}

namespace Loop

variable {config : Config α} {limits : InnerLoop.Limits} {loop start next : Loop α}
  {substates : List Nat} {categories root : Nat}

/-- The loop knows what its best model makes of the held-out trees. -/
structure Informed (loop : Loop α) (skeletons : List (LatentTree Unit)) : Prop where
  skeletons_eq : loop.sets.validation.skeletons = skeletons
  best : Measures loop.progress.best skeletons loop.progress.bestLikelihood

theorem Informed.step (informed : loop.Informed skeletons)
    (steady : loop.Steady substates categories root) (done : loop.step config limits = .ok next) :
    next.Informed skeletons := by
  obtain ⟨outcome, evaluated, done⟩ := bind_eq_ok_iff.mp done
  obtain ⟨improved, -, done⟩ := bind_eq_ok_iff.mp done
  obtain rfl := Except.ok.inj done
  have kept := (evaluate_skeletons loop.progress.latest loop.sets.validation).trans
    informed.skeletons_eq
  refine ⟨kept, ?_⟩
  unfold InnerLoop.Progress.advance
  split
  · exact ⟨loop.sets.validation, outcome, steady.latestSubstates ▸ steady.validation,
      informed.skeletons_eq, evaluated, rfl⟩
  · exact informed.best

theorem Leads.informed (leads : start.Leads config limits loop)
    (steady : start.Steady substates categories root) (informed : start.Informed skeletons) :
    loop.Informed skeletons := by
  induction leads with
  | start => exact informed
  | step before done ih => exact ih.step (before.steady steady) done

theorem Leads.of_iterate {more : Nat} {outcome : InnerLoop.Result (Model α) α × Run.Forests α}
    (before : start.Leads config limits loop)
    (done : (InnerLoop.iterate (Run.improver config) limits more loop.progress).run loop.sets =
      .ok outcome) :
    ∃ last stop, start.Leads config limits last ∧
      outcome = (last.progress.result stop, last.sets) := by
  induction more generalizing loop with
  | zero =>
    rw [iterate_run] at done
    obtain ⟨next, stepped, done⟩ := bind_eq_ok_iff.mp done
    cases stopped : next.progress.stop? limits with
    | some reason =>
      rw [stopped] at done
      exact ⟨next, reason, before.step stepped, (Except.ok.inj done).symm⟩
    | none =>
      rw [stopped] at done
      exact ⟨next, .maxIterations, before.step stepped, (Except.ok.inj done).symm⟩
  | succ more ih =>
    rw [iterate_run] at done
    obtain ⟨next, stepped, done⟩ := bind_eq_ok_iff.mp done
    cases stopped : next.progress.stop? limits with
    | some reason =>
      rw [stopped] at done
      exact ⟨next, reason, before.step stepped, (Except.ok.inj done).symm⟩
    | none =>
      rw [stopped] at done
      exact ih (before.step stepped) done

end Loop

namespace Run

variable {run start next changed : Run α γ} {root : Nat} {stage : Stage α}

/-- What no phase changes: the settings, the categories, and the held-out trees but for their
scores. -/
structure Keeps (run start : Run α γ) : Prop where
  config_eq : run.config = start.config
  output_eq : run.output = start.output
  vocabulary_eq : run.vocabulary = start.vocabulary
  skeletons_eq : run.validation.skeletons = start.validation.skeletons

omit [Scalar α] in
theorem Keeps.refl (run : Run α γ) : run.Keeps run := ⟨rfl, rfl, rfl, rfl⟩

omit [Scalar α] in
theorem Keeps.trans (later : next.Keeps run) (keeps : run.Keeps start) : next.Keeps start :=
  ⟨later.config_eq.trans keeps.config_eq, later.output_eq.trans keeps.output_eq,
    later.vocabulary_eq.trans keeps.vocabulary_eq, later.skeletons_eq.trans keeps.skeletons_eq⟩

theorem transform_keeps [Draws γ α] [TotalOrder α] {phase : Phase}
    (done : run.transform phase = .ok changed) : changed.Keeps run := by
  cases phase with
  | split =>
    obtain ⟨counts, -, done⟩ := bind_eq_ok_iff.mp done
    obtain ⟨⟨best, stream⟩, -, done⟩ := bind_eq_ok_iff.mp done
    obtain rfl := Except.ok.inj done
    exact ⟨rfl, rfl, rfl, rfl⟩
  | merge =>
    rw [transform, merge_eq] at done
    obtain ⟨⟨merged, train⟩, -, done⟩ := bind_eq_ok_iff.mp done
    obtain ⟨⟨best, outcome⟩, -, done⟩ := bind_eq_ok_iff.mp done
    obtain rfl := Except.ok.inj done
    exact ⟨rfl, rfl, rfl, rfl⟩
  | smooth =>
    obtain rfl := Except.ok.inj done
    exact ⟨rfl, rfl, rfl, rfl⟩

theorem resizeTrees_keeps {substates : List Nat} (done : run.resizeTrees substates = .ok next) :
    next.Keeps run ∧ next.best = run.best := by
  obtain ⟨train, -, done⟩ := bind_eq_ok_iff.mp done
  obtain ⟨validation, fitted, done⟩ := bind_eq_ok_iff.mp done
  obtain rfl := Except.ok.inj done
  exact ⟨⟨rfl, rfl, rfl, Forest.fit_skeletons fitted⟩, rfl⟩

theorem enter_informed (changed : run.Changed root) {loop : Loop α} (done : run.enter = .ok loop) :
    loop.Informed run.validation.skeletons := by
  obtain ⟨sized, resized, done⟩ := bind_eq_ok_iff.mp done
  obtain ⟨outcome, evaluated, done⟩ := bind_eq_ok_iff.mp done
  obtain rfl := Except.ok.inj done
  obtain ⟨train, validation, rfl, -, fits⟩ :=
    (resizeTrees_delivers changed changed.best.categories_eq any_overflow).of_ok resized
  have kept := (resizeTrees_keeps resized).1.skeletons_eq
  exact ⟨(evaluate_skeletons _ _).trans kept, validation, outcome, fits, kept, evaluated, rfl⟩

/-- A run after an inner loop that ended with this stage: the likelihood of the best model is
known. -/
structure Scored (next : Run α γ) (skeletons : List (LatentTree Unit)) (stage : Stage α) : Prop where
  recorded : next.bestLikelihood = some stage.bestLikelihood
  best : Measures next.best skeletons stage.bestLikelihood

theorem improve_scored (changed : run.Changed root) {phase : Option Phase} {round : Nat}
    {limits : InnerLoop.Limits} (done : run.improve phase round limits = .ok (next, stage)) :
    next.Keeps run ∧ next.Scored run.validation.skeletons stage := by
  rw [improve_eq] at done
  obtain ⟨loop, entered, done⟩ := bind_eq_ok_iff.mp done
  obtain ⟨outcome, iterated, done⟩ := bind_eq_ok_iff.mp done
  obtain ⟨last, stop, leads, rfl⟩ := Loop.Leads.of_iterate .start iterated
  obtain ⟨rfl, rfl⟩ := Prod.mk.inj (Except.ok.inj done)
  have steady := (enter_delivers changed any_overflow).of_ok entered
  have informed := leads.informed steady (enter_informed changed entered)
  exact ⟨⟨rfl, rfl, rfl, informed.skeletons_eq⟩, rfl, informed.best⟩

variable [TotalOrder α] [Draws γ α]

theorem runPhase_scored (settled : run.Settled root) {phase : Phase} {round : Nat}
    (done : run.runPhase phase round = .ok (next, stage)) :
    next.Keeps run ∧ next.Scored run.validation.skeletons stage := by
  obtain ⟨changed, transformed, done⟩ := bind_eq_ok_iff.mp done
  obtain ⟨⟨improved, unsaved⟩, improves, done⟩ := bind_eq_ok_iff.mp done
  obtain ⟨rfl, rfl⟩ := Prod.mk.inj (Except.ok.inj done)
  have isChanged := (transform_delivers settled any_overflow phase).of_ok transformed
  have keeps := transform_keeps transformed
  obtain ⟨improvedKeeps, recorded, best⟩ := improve_scored isChanged improves
  rw [keeps.skeletons_eq] at best
  exact ⟨improvedKeeps.trans keeps, recorded, best⟩

/-- A run between two phases, after some stages: the best model has the likelihood that the last
stage tells of, and none is known before the first stage. -/
structure Informed (run start : Run α γ) (stages : List (Stage α)) : Prop where
  keeps : run.Keeps start
  recorded : run.bestLikelihood = stages.getLast?.map Stage.bestLikelihood
  best : ∀ likelihood, run.bestLikelihood = some likelihood →
    Measures run.best start.validation.skeletons likelihood

omit [TotalOrder α] [Draws γ α] in
theorem Informed.append {stages : List (Stage α)} (informed : run.Informed start stages)
    (later : next.Keeps run) (scored : next.Scored run.validation.skeletons stage) :
    next.Informed start (stages ++ [stage]) := by
  refine ⟨later.trans informed.keeps, by simpa using scored.recorded, fun likelihood known => ?_⟩
  obtain rfl := Option.some.inj (scored.recorded.symm.trans known)
  rw [← informed.keeps.skeletons_eq]
  exact scored.best

theorem Informed.runPhases {before : List (Stage α)} (informed : run.Informed start before)
    (settled : run.Settled root) {phases : List Phase} {round : Nat}
    (done : (Run.runPhases round phases run).2 = .ok next) :
    next.Informed start (before ++ (Run.runPhases round phases run).1) ∧ next.Settled root := by
  induction phases generalizing run before with
  | nil =>
    obtain rfl := Except.ok.inj done
    exact ⟨by simpa [Run.runPhases] using informed, settled⟩
  | cons phase rest ih =>
    unfold Run.runPhases at done ⊢
    cases ran : run.runPhase phase round with
    | error fault => simp [ran] at done
    | ok after =>
      obtain ⟨after, stage⟩ := after
      obtain ⟨keeps, scored⟩ := runPhase_scored settled ran
      have afterSettled := ((runPhase_delivers settled any_overflow phase round).of_ok ran).1
      rw [ran] at done
      simpa using ih (informed.append keeps scored) afterSettled done

theorem Informed.runRounds {before : List (Stage α)} (informed : run.Informed start before)
    (settled : run.Settled root) {phases : List Phase} {round count : Nat}
    (done : (Run.runRounds phases round count run).2 = .ok next) :
    next.Informed start (before ++ (Run.runRounds phases round count run).1) ∧
      next.Settled root := by
  induction count generalizing run before round with
  | zero =>
    obtain rfl := Except.ok.inj done
    exact ⟨by simpa [Run.runRounds] using informed, settled⟩
  | succ count ih =>
    unfold Run.runRounds at done ⊢
    cases ran : Run.runPhases round phases run with
    | mk stages result =>
      rw [ran] at done
      cases result with
      | error fault => cases done
      | ok after =>
        have finished : (Run.runPhases round phases run).2 = .ok after := congrArg Prod.snd ran
        obtain ⟨afterInformed, afterSettled⟩ := informed.runPhases settled finished
        rw [ran] at afterInformed
        simpa using ih afterInformed afterSettled done

/-- The baseline's only loop. -/
def lastLoop (run : Run α γ) (stages : List (Stage α)) :
    Except Fault (Run α γ × List (Stage α)) := do
  if run.config.baseline then
    let (run, stage) ← run.improve none 0 run.config.baselineLimits
    return (run, stages ++ [stage])
  else return (run, stages)

/-- A run with its stages, right before its final evaluation. -/
def finish (run : Run α γ) : Except Fault (Run α γ × List (Stage α)) := do
  let count ← run.config.roundCount
  let (stages, last) := Run.runRounds run.config.phases 1 count run
  (← last).lastLoop stages

omit [TotalOrder α] [Draws γ α] in
theorem conclude_eq (run : Run α γ) (stages : List (Stage α)) :
    run.conclude stages = (do
      let (run, stages) ← run.lastLoop stages
      run.close stages) := by
  unfold conclude lastLoop
  split
  · simp only [bind_assoc, pure_bind]
  · rfl

/-- A run executes all of its loops, and then the final evaluation. -/
theorem execute_result (run : Run α γ) :
    run.execute.result = lift (do
      let (last, stages) ← run.finish
      last.close stages) := by
  unfold execute finish
  cases run.config.roundCount with
  | error fault => rfl
  | ok count =>
    simp only [ok_bind, bind_assoc, ← conclude_eq]
    rfl

theorem Informed.finish (settled : run.Settled root) (unscored : run.bestLikelihood = none)
    {stages : List (Stage α)} (done : run.finish = .ok (next, stages)) :
    next.Informed run stages ∧ next.Settled root := by
  have informed : run.Informed run [] :=
    ⟨.refl run, unscored, fun _ known => nomatch unscored.symm.trans known⟩
  obtain ⟨count, -, done⟩ := bind_eq_ok_iff.mp done
  obtain ⟨last, rounds, done⟩ := bind_eq_ok_iff.mp done
  obtain ⟨lastInformed, lastSettled⟩ := informed.runRounds settled rounds
  rw [List.nil_append] at lastInformed
  unfold lastLoop at done
  split at done
  · obtain ⟨⟨improved, stage⟩, improves, done⟩ := bind_eq_ok_iff.mp done
    obtain ⟨rfl, rfl⟩ := Prod.mk.inj (Except.ok.inj done)
    obtain ⟨keeps, scored⟩ := improve_scored lastSettled.changed improves
    exact ⟨lastInformed.append keeps scored,
      ((improve_delivers lastSettled.changed any_overflow none 0 _).of_ok improves).1⟩
  · obtain ⟨rfl, rfl⟩ := Prod.mk.inj (Except.ok.inj done)
    exact ⟨lastInformed, lastSettled⟩

end Run

end Training

end LatentGrammar
