import LatentGrammar.Proofs.Schedule.Changes

namespace LatentGrammar

variable {α γ : Type}

namespace Training

variable [Scalar α]

namespace Loop

variable {config : Config α} {limits : InnerLoop.Limits} {start loop next : Loop α}
  {frames : GrammarFrame α × LexiconFrame α}

/-- Both models of the loop have these frames. -/
structure Framed (loop : Loop α) (frames : GrammarFrame α × LexiconFrame α) : Prop where
  best : loop.progress.best.frames = frames
  latest : loop.progress.latest.frames = frames

theorem Framed.step (framed : loop.Framed frames) (done : loop.step config limits = .ok next) :
    next.Framed frames ∧ next.sets.train.skeletons = loop.sets.train.skeletons := by
  obtain ⟨outcome, -, done⟩ := bind_eq_ok_iff.mp done
  obtain ⟨improved, improves, done⟩ := bind_eq_ok_iff.mp done
  obtain rfl := Except.ok.inj done
  have kept := ((nextModel_frames _ _ _).of_ok improves).trans framed.latest
  refine ⟨?_, nextModel_skeletons _ _ _⟩
  unfold InnerLoop.Progress.advance
  split
  · exact ⟨framed.latest, kept⟩
  · exact ⟨framed.best, kept⟩

theorem Leads.framed (leads : start.Leads config limits loop) (framed : start.Framed frames) :
    loop.Framed frames ∧ loop.sets.train.skeletons = start.sets.train.skeletons := by
  induction leads with
  | start => exact ⟨framed, rfl⟩
  | step before done ih =>
    obtain ⟨framed, kept⟩ := ih
    obtain ⟨nextFramed, same⟩ := framed.step done
    exact ⟨nextFramed, same.trans kept⟩

end Loop

namespace Run

variable {start run changed next last : Run α γ} {stage : Stage α} {round : Nat}

theorem enter_framed {loop : Loop α} (entered : run.enter = .ok loop) :
    loop.Framed run.best.frames ∧ loop.sets.train.skeletons = run.train.skeletons := by
  obtain ⟨sized, resized, entered⟩ := bind_eq_ok_iff.mp entered
  obtain ⟨outcome, -, done⟩ := bind_eq_ok_iff.mp entered
  obtain rfl := Except.ok.inj done
  obtain ⟨train, fitted, resized⟩ := bind_eq_ok_iff.mp resized
  obtain ⟨validation, -, done⟩ := bind_eq_ok_iff.mp resized
  obtain rfl := Except.ok.inj done
  exact ⟨⟨rfl, rfl⟩, Forest.fit_skeletons fitted⟩

/-- An inner loop leaves the models, the trees and the tale of its last iteration. -/
theorem improve_of_ok {phase : Option Phase} {limits : InnerLoop.Limits}
    (done : run.improve phase round limits = .ok (next, stage)) :
    ∃ first last : Loop α, run.enter = .ok first ∧ first.Leads run.config limits last ∧
      next = { run with
        train := last.sets.train
        validation := last.sets.validation
        best := last.progress.best
        bestLikelihood := some last.progress.bestLikelihood
        candidate := last.progress.latest } ∧
      stage.phase = phase ∧ stage.round = round ∧ stage.substates = run.best.substates ∧
      stage.checkpoint = none := by
  rw [improve_eq] at done
  obtain ⟨first, entered, done⟩ := bind_eq_ok_iff.mp done
  obtain ⟨outcome, iterated, done⟩ := bind_eq_ok_iff.mp done
  obtain ⟨last, stop, leads, rfl⟩ := Loop.Leads.of_iterate .start iterated
  obtain ⟨rfl, rfl⟩ := Prod.mk.inj (Except.ok.inj done)
  exact ⟨first, last, entered, leads, rfl, rfl, rfl, rfl, rfl⟩

/-- The loop of the baseline ends after its first iteration. -/
theorem improve_once {phase : Option Phase} {limits : InnerLoop.Limits}
    (once : limits.max = 1) (single : limits.singlePass = true)
    (done : run.improve phase round limits = .ok (next, stage)) :
    stage.iterations = 1 ∧ stage.stop = .singlePass := by
  rw [improve_eq, once] at done
  obtain ⟨first, entered, done⟩ := bind_eq_ok_iff.mp done
  obtain ⟨outcome, iterated, done⟩ := bind_eq_ok_iff.mp done
  obtain ⟨-, rfl⟩ := Prod.mk.inj (Except.ok.inj done)
  obtain ⟨sized, -, entered⟩ := bind_eq_ok_iff.mp entered
  obtain ⟨scored, -, opened⟩ := bind_eq_ok_iff.mp entered
  obtain rfl := Except.ok.inj opened
  rw [iterate_run] at iterated
  obtain ⟨after, stepped, ended⟩ := bind_eq_ok_iff.mp iterated
  obtain ⟨score, -, stepped⟩ := bind_eq_ok_iff.mp stepped
  obtain ⟨improved, -, stepped⟩ := bind_eq_ok_iff.mp stepped
  obtain rfl := Except.ok.inj stepped
  simp only [InnerLoop.Progress.stop?, single, if_true] at ended
  obtain rfl := Except.ok.inj ended
  refine ⟨?_, rfl⟩
  dsimp only [InnerLoop.Progress.result]
  unfold InnerLoop.Progress.advance
  split <;> rfl

variable [Draws γ α] [TotalOrder α] {phase : Phase}

/-- A model that the inner loop of a phase comes to, as the best or as the latest one. -/
def Trains (run : Run α γ) (phase : Phase) (model : Model α) : Prop :=
  ∃ (changed : Run α γ) (first loop : Loop α), run.transform phase = .ok changed ∧
    changed.enter = .ok first ∧ first.Leads changed.config (phase.limits changed.config) loop ∧
    (model = loop.progress.best ∨ model = loop.progress.latest)

/-- All models of a phase have the frames that its change gave them. -/
theorem Trains.frames_eq {model : Model α} (trains : run.Trains phase model)
    (transformed : run.transform phase = .ok changed) : model.frames = changed.best.frames := by
  obtain ⟨other, first, loop, again, entered, leads, isBest | isLatest⟩ := trains
  · obtain rfl := Except.ok.inj (transformed.symm.trans again)
    rw [isBest, (leads.framed (enter_framed entered).1).1.best]
  · obtain rfl := Except.ok.inj (transformed.symm.trans again)
    rw [isLatest, (leads.framed (enter_framed entered).1).1.latest]

/-- A phase that a run goes through, and the stage that tells of it. -/
structure Passes (start run next : Run α γ) (phase : Phase) (stage : Stage α) : Prop where
  goesOn : next.GoesOn start
  phase_eq : stage.phase = some phase
  sizes : start.Resizes run phase stage.substates
  substates_eq : next.best.substates = stage.substates
  smoothings : ∀ model, run.Trains phase model →
    model.smoothings = phase.install start.config run.best.smoothings
  best : run.Trains phase next.best
  latest : run.Trains phase next.candidate
  saved : stage.checkpoint =
    some (phase.checkpointPath start.output stage.round, next.checkpoint next.best)

theorem runPhase_passes (goesOn : run.GoesOn start)
    (done : run.runPhase phase round = .ok (next, stage)) :
    start.Passes run next phase stage ∧ stage.round = round := by
  obtain ⟨changed, transformed, done⟩ := bind_eq_ok_iff.mp done
  obtain ⟨⟨improved, unsaved⟩, improves, done⟩ := bind_eq_ok_iff.mp done
  obtain ⟨rfl, rfl⟩ := Prod.mk.inj (Except.ok.inj done)
  obtain ⟨changes, sizes, smoothings⟩ := transform_turns goesOn transformed
  obtain ⟨first, last, entered, leads, rfl, isPhase, isRound, substates, -⟩ :=
    improve_of_ok improves
  obtain ⟨entering, sized⟩ := enter_framed entered
  obtain ⟨framed, kept⟩ := leads.framed entering
  have sameSubstates := Model.substates_eq_of_frames framed.best
  have sameRoot : last.progress.best.grammar.root = changed.best.grammar.root :=
    congrArg (·.1.root) framed.best
  refine ⟨{
    goesOn := ⟨changes.config_eq, changes.output_eq, kept.trans (sized.trans changes.train_eq),
      sameRoot.trans changes.root_eq⟩
    phase_eq := isPhase
    sizes := substates ▸ sizes
    substates_eq := sameSubstates.trans substates.symm
    smoothings := fun model trains =>
      (Model.smoothings_eq_of_frames (trains.frames_eq transformed)).trans smoothings
    best := ⟨changed, first, last, transformed, entered, leads, .inl rfl⟩
    latest := ⟨changed, first, last, transformed, entered, leads, .inr rfl⟩
    saved := ?_ }, isRound⟩
  rw [← changes.output_eq, isRound]

/-- The stages of the phases that a run has gone through. -/
inductive History (start : Run α γ) : List (Stage α) → Run α γ → Prop
  | start : History start [] start
  | phase {stages : List (Stage α)} {run next : Run α γ} {phase : Phase} {round : Nat}
      {stage : Stage α} (before : History start stages run)
      (done : run.runPhase phase round = .ok (next, stage)) :
      History start (stages ++ [stage]) next

/-- The phase and the round of each stage. -/
def slots (stages : List (Stage α)) : List (Option Phase × Nat) :=
  stages.map fun stage => (stage.phase, stage.round)

/-- The numbers of substates after some stages. -/
def sizesAfter (start : Run α γ) (stages : List (Stage α)) : List Nat :=
  (stages.getLast?.map Stage.substates).getD start.best.substates

/-- The smoothing after the phases of some stages. -/
def smoothingsAfter (start : Run α γ) (stages : List (Stage α)) : Smoothing α × Smoothing α :=
  (stages.filterMap Stage.phase).foldl (fun installed phase => phase.install start.config installed)
    start.best.smoothings

/-- Where a run stands after some stages. -/
structure Stands (start : Run α γ) (stages : List (Stage α)) (run : Run α γ) : Prop where
  goesOn : run.GoesOn start
  substates_eq : run.best.substates = sizesAfter start stages
  best : run.best.smoothings = smoothingsAfter start stages
  latest : run.candidate.smoothings = smoothingsAfter start stages

theorem Stands.append {stages : List (Stage α)} (stands : start.Stands stages run)
    (passes : start.Passes run next phase stage) : start.Stands (stages ++ [stage]) next := by
  have installed (model : Model α) (trains : run.Trains phase model) :
      model.smoothings = smoothingsAfter start (stages ++ [stage]) := by
    rw [passes.smoothings model trains, stands.best]
    simp [smoothingsAfter, passes.phase_eq]
  exact ⟨passes.goesOn, by simpa [sizesAfter] using passes.substates_eq,
    installed _ passes.best, installed _ passes.latest⟩

theorem History.stands {stages : List (Stage α)} (history : start.History stages run)
    (fresh : start.candidate = start.best) : start.Stands stages run := by
  induction history with
  | start => exact ⟨⟨rfl, rfl, rfl, rfl⟩, rfl, rfl, congrArg Model.smoothings fresh⟩
  | phase before done ih => exact ih.append (runPhase_passes ih.goesOn done).1

/-- Every stage goes back to a phase of the run that the stages before it led to. -/
theorem History.passed {stages earlier later : List (Stage α)} (history : start.History stages last)
    (parts : stages = earlier ++ stage :: later) :
    ∃ (run next : Run α γ) (phase : Phase) (round : Nat), start.History earlier run ∧
      run.runPhase phase round = .ok (next, stage) := by
  induction history generalizing later with
  | start => exact absurd (congrArg List.length parts) (by simp)
  | @phase stages run next phase round final before done ih =>
    rcases List.eq_nil_or_concat later with rfl | ⟨init, close, rfl⟩
    · obtain ⟨rfl, same⟩ := List.append_inj' parts rfl
      obtain rfl := (List.cons.inj same).1
      exact ⟨run, next, phase, round, before, done⟩
    · rw [List.concat_eq_append, ← List.cons_append, ← List.append_assoc] at parts
      exact ih (List.append_inj' parts rfl).1

theorem History.runPhases {before : List (Stage α)} (history : start.History before run)
    (fresh : start.candidate = start.best) {phases : List Phase}
    (done : (Run.runPhases round phases run).2 = .ok next) :
    start.History (before ++ (Run.runPhases round phases run).1) next ∧
      slots (Run.runPhases round phases run).1 = phases.map fun phase => (some phase, round) := by
  induction phases generalizing run before with
  | nil =>
    obtain rfl := Except.ok.inj done
    exact ⟨by simpa [Run.runPhases] using history, rfl⟩
  | cons phase rest ih =>
    unfold Run.runPhases at done ⊢
    cases ran : run.runPhase phase round with
    | error fault => simp [ran] at done
    | ok after =>
      obtain ⟨after, stage⟩ := after
      obtain ⟨passes, isRound⟩ := runPhase_passes (history.stands fresh).goesOn ran
      rw [ran] at done
      obtain ⟨whole, later⟩ := ih (history.phase ran) done
      refine ⟨by simpa using whole, ?_⟩
      simpa [slots, passes.phase_eq, isRound] using later

theorem History.runRounds {before : List (Stage α)} (history : start.History before run)
    (fresh : start.candidate = start.best) {phases : List Phase} {count : Nat}
    (done : (Run.runRounds phases round count run).2 = .ok next) :
    start.History (before ++ (Run.runRounds phases round count run).1) next ∧
      slots (Run.runRounds phases round count run).1 =
        (List.range' round count).flatMap fun round => phases.map fun phase => (some phase, round) := by
  induction count generalizing run before round with
  | zero =>
    obtain rfl := Except.ok.inj done
    exact ⟨by simpa [Run.runRounds] using history, rfl⟩
  | succ count ih =>
    unfold Run.runRounds at done ⊢
    cases ran : Run.runPhases round phases run with
    | mk stages result =>
      rw [ran] at done
      cases result with
      | error fault => cases done
      | ok after =>
        have finished : (Run.runPhases round phases run).2 = .ok after := congrArg Prod.snd ran
        obtain ⟨reached, here⟩ := history.runPhases fresh finished
        rw [ran] at reached here
        obtain ⟨whole, later⟩ := ih reached done
        refine ⟨by simpa using whole, ?_⟩
        rw [List.range'_succ, List.flatMap_cons, ← here, ← later]
        simp [slots]

end Run

end Training

end LatentGrammar
