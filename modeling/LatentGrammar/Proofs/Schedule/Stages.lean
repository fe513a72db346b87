import LatentGrammar.Proofs.Schedule.History

namespace LatentGrammar

namespace Training

variable {α γ : Type} [Scalar α]

/-- The phases of a run with their rounds, in order. -/
def Config.schedule (config : Config α) : List (Phase × Nat) :=
  (List.range' 1 config.rounds).flatMap fun round =>
    (if config.noSplit then [] else [(.split, round)]) ++
      (if config.mergePercentage == 0 then [] else [(.merge, round)]) ++
      (if config.smoothing = .none then [] else [(.smooth, round)])

theorem Config.schedule_eq (config : Config α) :
    config.schedule =
      (List.range' 1 config.rounds).flatMap fun round => config.phases.map fun phase =>
        (phase, round) := by
  unfold schedule
  congr 1
  funext round
  cases splits : config.noSplit <;> cases merges : (config.mergePercentage == 0) <;>
    cases smooths : config.smoothing <;> simp [Config.phases, Phase.isUsed, splits, merges, smooths]

theorem Config.nodup_schedule (config : Config α) : config.schedule.Nodup := by
  rw [schedule_eq]
  have rounds : (List.range' 1 config.rounds).Nodup := List.nodup_range'
  refine List.pairwise_flatMap.mpr ⟨fun round _ => ?_, rounds.imp ?_⟩
  · have phases : config.phases.Nodup := List.Nodup.filter _ (by decide)
    exact phases.map fun _ _ same => (Prod.mk.inj same).1
  · intro round other different one oneMember two twoMember same
    obtain ⟨phase, -, rfl⟩ := List.mem_map.mp oneMember
    obtain ⟨phase', -, rfl⟩ := List.mem_map.mp twoMember
    exact different (Prod.mk.inj same).2

theorem Config.roundCount_of_ok {config : Config α} {count : Nat}
    (done : config.roundCount = .ok count) :
    (config.baseline = true → count = 0) ∧ (config.baseline = false →
      ((List.range' 1 count).flatMap fun round => config.phases.map fun phase => (phase, round)) =
        config.schedule) := by
  unfold roundCount at done
  cases baseline : config.baseline with
  | true =>
    rw [baseline] at done
    exact ⟨fun _ => (Except.ok.inj done).symm, fun absent => nomatch absent⟩
  | false =>
    rw [baseline] at done
    obtain ⟨_, -, done⟩ := bind_eq_ok_iff.mp done
    obtain rfl := Except.ok.inj done
    refine ⟨fun absent => (nomatch absent), fun _ => ?_⟩
    rw [schedule_eq]
    split
    · rename_i none
      simp [List.isEmpty_iff.mp none]
    · rfl

omit [Scalar α] in
theorem Stage.name_eq (stage : Stage α) : stage.name = stage.phase.elim "baseline" Phase.name := by
  unfold name
  cases stage.phase <;> rfl

namespace Phase

theorem takeWhile_isDigit (round : Nat) (rest : List Char) :
    ((toString round).toList ++ '_' :: rest).takeWhile Char.isDigit = (toString round).toList := by
  have digits : ∀ letter ∈ (toString round).toList, letter.isDigit = true := by
    intro letter member
    rw [show toString round = round.repr from rfl, Nat.toList_repr] at member
    exact Nat.isDigit_of_mem_toDigits (by decide) (by decide) member
  rw [List.takeWhile_append_of_pos digits, List.takeWhile_cons_of_neg (by decide), List.append_nil]

theorem name_injective {phase other : Phase} (same : phase.name = other.name) : phase = other := by
  cases phase <;> cases other <;> first | rfl | exact absurd same (by decide)

theorem checkpointPath_inj {output : String} {round other : Nat} {phase phase' : Phase}
    (same : checkpointPath output round phase = checkpointPath output other phase') :
    round = other ∧ phase = phase' := by
  have letters : (toString round).toList ++ '_' :: phase.name.toList =
      (toString other).toList ++ '_' :: phase'.name.toList := by
    have whole := congrArg String.toList same
    simp only [checkpointPath, String.toList_append, List.append_assoc] at whole
    exact List.append_cancel_left (List.append_cancel_left whole)
  have rounds : (toString round).toList = (toString other).toList := by
    rw [← takeWhile_isDigit round phase.name.toList, letters, takeWhile_isDigit]
  rw [rounds] at letters
  have names := (List.cons.inj (List.append_cancel_left letters)).2
  exact ⟨Nat.repr_injective (String.toList_inj.mp rounds), name_injective (String.toList_inj.mp names)⟩

theorem output_ne_checkpointPath (output : String) (round : Nat) (phase : Phase) :
    output ≠ checkpointPath output round phase := by
  intro same
  have lengths := congrArg String.length same
  have underscore : "_".length = 1 := by decide
  simp only [checkpointPath, String.length_append, underscore] at lengths
  omega

end Phase

namespace Run

variable [Draws γ α] [TotalOrder α] {start run next last : Run α γ} {stage : Stage α}
  {config : Config α} {report : Report α}

/-- The stages of phases are saved under the paths of their slots. -/
theorem History.paths {stages : List (Stage α)} (history : start.History stages run)
    (fresh : start.candidate = start.best) :
    (stages.filterMap Stage.checkpoint).map Prod.fst =
      (slots stages).filterMap fun slot =>
        slot.1.map (·.checkpointPath start.output slot.2) := by
  induction history with
  | start => rfl
  | @phase stages run next phase round stage before done ih =>
    obtain ⟨passes, -⟩ := runPhase_passes (before.stands fresh).goesOn done
    rw [List.filterMap_append, List.map_append, ih, slots, slots, List.map_append,
      List.filterMap_append]
    simp [passes.saved, passes.phase_eq]

omit [Draws γ α] [TotalOrder α] in
theorem close_of_ok {stages : List (Stage α)} (done : run.close stages = .ok report) :
    report.stages = stages ∧ report.output = run.output ∧
      (report.checkpoint.model = run.best ∨ report.checkpoint.model = run.candidate) := by
  obtain ⟨sized, resized, done⟩ := bind_eq_ok_iff.mp done
  obtain ⟨outcome, -, done⟩ := bind_eq_ok_iff.mp done
  obtain rfl := Except.ok.inj done
  obtain ⟨train, -, resized⟩ := bind_eq_ok_iff.mp resized
  obtain ⟨validation, -, resized⟩ := bind_eq_ok_iff.mp resized
  obtain rfl := Except.ok.inj resized
  refine ⟨rfl, rfl, ?_⟩
  dsimp only [checkpoint]
  split
  · exact .inr rfl
  · split
    · exact .inr rfl
    · exact .inl rfl

omit [Draws γ α] [TotalOrder α] in
theorem conclude_of_baseline (baseline : run.config.baseline = true)
    (done : run.conclude [] = .ok report) :
    (∃ stage, report.stages = [stage] ∧ stage.name = "baseline" ∧ stage.round = 0 ∧
      stage.iterations = 1 ∧ stage.stop = .singlePass ∧ stage.checkpoint = none ∧
      stage.phase = none) ∧
      report.checkpoint.model.frames = run.best.frames := by
  unfold conclude at done
  rw [if_pos baseline] at done
  obtain ⟨⟨improved, stage⟩, improves, done⟩ := bind_eq_ok_iff.mp done
  obtain ⟨single, stop⟩ := improve_once rfl rfl improves
  obtain ⟨first, last, entered, leads, rfl, isPhase, isRound, -, unsaved⟩ :=
    improve_of_ok improves
  obtain ⟨stages, -, model⟩ := close_of_ok done
  obtain ⟨framed, -⟩ := leads.framed (enter_framed entered).1
  refine ⟨⟨stage, stages, by rw [Stage.name, isPhase], isRound, single, stop, unsaved, isPhase⟩, ?_⟩
  rcases model with best | candidate
  · rw [best]
    exact framed.best
  · rw [candidate]
    exact framed.latest

theorem execute_of_ok (done : run.execute.result = .ok report) :
    ∃ count next, run.config.roundCount = .ok count ∧
      (runRounds run.config.phases 1 count run).2 = .ok next ∧
      next.conclude (runRounds run.config.phases 1 count run).1 = .ok report ∧
      run.execute.stages = (runRounds run.config.phases 1 count run).1 := by
  unfold execute at done ⊢
  cases counted : run.config.roundCount with
  | error fault =>
    rw [counted] at done
    cases done
  | ok count =>
    rw [counted] at done
    obtain ⟨next, finished, concluded⟩ := bind_eq_ok_iff.mp (mapError_eq_ok_iff.mp done)
    exact ⟨count, next, rfl, finished, concluded, rfl⟩

omit [TotalOrder α] in
theorem prepare_of_ok {seeded : Nat → γ} {sources : Sources α} {corpus : Corpus}
    (prepared : prepare seeded config sources corpus = .ok start) :
    start.config = config ∧ start.candidate = start.best := by
  unfold prepare at prepared
  obtain ⟨output, -, prepared⟩ := bind_eq_ok_iff.mp prepared
  obtain ⟨⟨vocabulary, substates, resumed⟩, -, prepared⟩ := bind_eq_ok_iff.mp prepared
  dsimp only at prepared
  split at prepared
  · obtain ⟨train, -, prepared⟩ := bind_eq_ok_iff.mp prepared
    obtain ⟨validation, -, prepared⟩ := bind_eq_ok_iff.mp prepared
    obtain ⟨⟨model, stream⟩, -, done⟩ := bind_eq_ok_iff.mp prepared
    obtain rfl := Except.ok.inj done
    exact ⟨rfl, rfl⟩
  · cases prepared

/-- A stage of a run that earlier stages led to: its phase finds the sizes that the last of them left,
changes them and the smoothing by its rule, and saves what its inner loop comes to. -/
structure Continues (start : Run α γ) (earlier : List (Stage α)) (stage : Stage α)
    (run next : Run α γ) (phase : Phase) : Prop where
  history : start.History earlier run
  done : run.runPhase phase stage.round = .ok (next, stage)
  substates_eq : run.best.substates = sizesAfter start earlier
  passes : start.Passes run next phase stage
  smoothings : ∀ model, run.Trains phase model →
    model.smoothings = smoothingsAfter start (earlier ++ [stage])

theorem History.continues {stages earlier later : List (Stage α)}
    (history : start.History stages last) (fresh : start.candidate = start.best)
    (parts : stages = earlier ++ stage :: later) :
    ∃ run next phase, start.Continues earlier stage run next phase := by
  obtain ⟨run, next, phase, round, before, done⟩ := history.passed parts
  have stands := before.stands fresh
  obtain ⟨passes, rfl⟩ := runPhase_passes stands.goesOn done
  refine ⟨run, next, phase, before, done, stands.substates_eq, passes, fun model trains => ?_⟩
  rw [passes.smoothings model trains, stands.best]
  simp [smoothingsAfter, passes.phase_eq]

/-- Stages of different slots are saved apart, and apart from the last model. -/
theorem History.nodup_paths {stages : List (Stage α)} (history : start.History stages run)
    (fresh : start.candidate = start.best) {schedule : List (Phase × Nat)}
    (order : slots stages = schedule.map fun slot => (some slot.1, slot.2))
    (nodup : schedule.Nodup) :
    ((stages.filterMap Stage.checkpoint).map Prod.fst ++ [start.output]).Nodup := by
  have paths : (stages.filterMap Stage.checkpoint).map Prod.fst =
      schedule.map fun slot => slot.1.checkpointPath start.output slot.2 := by
    rw [history.paths fresh, order, List.filterMap_map]
    simp
  rw [paths, List.nodup_append]
  refine ⟨nodup.map fun one two same => ?_, List.nodup_singleton _, ?_⟩
  · obtain ⟨rounds, phases⟩ := Phase.checkpointPath_inj same
    exact Prod.ext phases rounds
  · intro path member output isOutput
    obtain ⟨slot, -, rfl⟩ := List.mem_map.mp member
    obtain rfl := List.mem_singleton.mp isOutput
    exact (Phase.output_ne_checkpointPath _ _ _).symm

omit [Scalar α] [Draws γ α] [TotalOrder α] in
theorem saves_of_ok {attempt : Attempt α} (done : attempt.result = .ok report) :
    attempt.saves.map Prod.fst =
      (attempt.stages.filterMap Stage.checkpoint).map Prod.fst ++ [report.output] := by
  simp [Attempt.saves, done]

/-- Two rounds for the small corpus, in which all siblings are merged again. -/
def shortConfig : Config Rat :=
  { sampleConfig none with
    rounds := 2
    substates := 1
    mergePercentage := 1
    splitMinIterations := 0
    splitMaxIterations := 1
    mergeMinIterations := 0
    mergeMaxIterations := 1
    smoothMaxIterations := 1
    allowMoreSubstatesThanCounts := true }

def shortRun : Attempt Rat := trainOn (fun _ => ()) shortConfig sampleSources sampleCorpus

theorem substates_shortRun :
    shortRun.result.toOption.map (fun report => report.stages.map Stage.substates) =
      some [[2, 1], [1, 1], [1, 1], [2, 1], [1, 1], [1, 1]] := by
  decide +kernel

end Run

end Training

end LatentGrammar
