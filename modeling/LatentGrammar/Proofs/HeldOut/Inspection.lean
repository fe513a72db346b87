import LatentGrammar.Proofs.HeldOut.Best
import LatentGrammar.Training.Inspection

namespace LatentGrammar

namespace Training

variable {α γ : Type} [Scalar α]

/-- Settings of a fresh run that reads its held-out trees from a file, whole and as they are. -/
structure Config.ReadsPlainly (config : Config α) (path : String) : Prop where
  fresh : config.resume = none
  heldOut : config.validationPath = some path
  caseKept : config.lowercase = false
  labelsCut : config.keepFunctionLabels = false
  ordinaryLength : config.maxSentenceLength = 10000

variable {config : Config α} {sources after : Sources α} {path : String} {corpus : Corpus}

theorem Config.ReadsPlainly.options (plain : config.ReadsPlainly path) {vocabulary : Vocabulary}
    (rooted : vocabulary.rootLabel = Treebank.defaultRoot) :
    ({ config.treebankOptions with fraction := 1 } : Treebank.Options α) =
      { Treebank.Options.standard with root := vocabulary.rootLabel } := by
  simp only [Config.treebankOptions, Treebank.Options.standard, plain.caseKept, plain.labelsCut,
    plain.ordinaryLength, rooted]

theorem Corpus.validation_of_load (heldOut : config.validationPath = some path)
    (loaded : Corpus.load sources config = .ok corpus) :
    ∃ trees, Corpus.readTreebank sources { config.treebankOptions with fraction := 1 } path =
        .ok trees ∧
      corpus.validation =
        trees.map (Treebank.binarize config.vertical config.horizontal config.binarization) := by
  unfold Corpus.load at loaded
  rw [heldOut] at loaded
  split at loaded
  · obtain ⟨train, -, loaded⟩ := bind_eq_ok_iff.mp loaded
    obtain ⟨-, loaded⟩ := Run.check_eq_ok_iff.mp loaded
    obtain ⟨trees, read, done⟩ := bind_eq_ok_iff.mp loaded
    obtain rfl := Except.ok.inj done
    exact ⟨trees, Run.mapError_eq_ok_iff.mp read, rfl⟩
  · cases loaded

namespace Run

variable {run start last : Run α γ} {root : Nat} {stages : List (Stage α)} {report : Report α}

/-- A fresh run before its first phase. -/
structure Fresh (start : Run α γ) (config : Config α) (corpus : Corpus) : Prop where
  config_eq : start.config = config
  unscored : start.bestLikelihood = none
  rootLabel_eq : start.vocabulary.rootLabel = Treebank.defaultRoot
  built : ∃ substates,
    Forest.ofTrees corpus.validation substates start.vocabulary = .ok start.validation

theorem prepare_fresh [Draws γ α] {seeded : Nat → γ} (fresh : config.resume = none)
    (prepared : prepare seeded config sources corpus = .ok start) : start.Fresh config corpus := by
  obtain ⟨output, -, prepared⟩ := bind_eq_ok_iff.mp prepared
  obtain ⟨⟨vocabulary, substates, resumed⟩, found, prepared⟩ := bind_eq_ok_iff.mp prepared
  have rooted : vocabulary.rootLabel = Treebank.defaultRoot := by
    unfold Run.origin at found
    rw [fresh] at found
    obtain ⟨rfl, -⟩ := Prod.mk.inj (Except.ok.inj found)
    simp only [numberCategories, Vocabulary.rootLabel_internAll, Vocabulary.empty]
  dsimp only at prepared
  split at prepared
  · obtain ⟨train, -, prepared⟩ := bind_eq_ok_iff.mp prepared
    obtain ⟨validation, built, prepared⟩ := bind_eq_ok_iff.mp prepared
    obtain ⟨⟨model, stream⟩, -, done⟩ := bind_eq_ok_iff.mp prepared
    obtain rfl := Except.ok.inj done
    exact ⟨rfl, rfl, rooted, substates, mapError_eq_ok_iff.mp (mapError_eq_ok_iff.mp built)⟩
  · cases prepared

/-- What the final evaluation comes to: the latest model is taken if it is better than the best one,
or if none has been scored. -/
inductive Closes (last : Run α γ) (latest : α) : Model α → α → Prop
  | only (unscored : last.bestLikelihood = none) : Closes last latest last.candidate latest
  | better {likelihood : α} (known : last.bestLikelihood = some likelihood)
      (better : likelihood < latest) : Closes last latest last.candidate latest
  | best {likelihood : α} (known : last.bestLikelihood = some likelihood)
      (worse : ¬likelihood < latest) : Closes last latest last.best likelihood

theorem close_closes (settled : last.Settled root) (done : last.close stages = .ok report) :
    ∃ latest best, Measures last.candidate last.validation.skeletons latest ∧
      last.Closes latest best report.finalLikelihood ∧ report.stages = stages ∧
      report.output = last.output ∧ report.checkpoint = last.checkpoint best := by
  obtain ⟨sized, resized, done⟩ := bind_eq_ok_iff.mp done
  obtain ⟨outcome, evaluated, done⟩ := bind_eq_ok_iff.mp done
  obtain rfl := Except.ok.inj done
  obtain ⟨train, validation, rfl, -, fits⟩ := (resizeTrees_delivers settled.changed
    settled.candidate.categories_eq any_overflow).of_ok resized
  have measured : Measures last.candidate last.validation.skeletons outcome.logLikelihood :=
    ⟨validation, outcome, fits, (resizeTrees_keeps resized).1.skeletons_eq, evaluated, rfl⟩
  dsimp only
  cases known : last.bestLikelihood with
  | none => exact ⟨_, _, measured, .only known, rfl, rfl, rfl⟩
  | some likelihood =>
    dsimp only
    by_cases better : likelihood < outcome.logLikelihood
    · rw [if_pos better]
      exact ⟨_, _, measured, .better known better, rfl, rfl, rfl⟩
    · rw [if_neg better]
      exact ⟨_, _, measured, .best known better, rfl, rfl, rfl⟩

/-- A model that gives the held-out trees some likelihood is found to do so when its checkpoint is
inspected on their file. -/
theorem inspected (plain : config.ReadsPlainly path)
    (loaded : Corpus.load sources config = .ok corpus) (fresh : start.Fresh config corpus)
    (unchanged : after.text path = sources.text path) (settled : last.Settled root)
    (keeps : last.Keeps start) {model : Model α} (sized : model.substates = last.best.substates)
    {likelihood : α} (measures : Measures model last.validation.skeletons likelihood) :
    ∃ summary, Inspection.reportTreebank after (last.checkpoint model) path = .ok summary ∧
      summary.outcome.logLikelihood = likelihood := by
  obtain ⟨trees, read, binarized⟩ := Corpus.validation_of_load plain.heldOut loaded
  obtain ⟨substates, built⟩ := fresh.built
  have settings : last.config = config := keeps.config_eq.trans fresh.config_eq
  have rooted : last.vocabulary.rootLabel = Treebank.defaultRoot := by
    rw [keeps.vocabulary_eq, fresh.rootLabel_eq]
  have readAgain : Corpus.readTreebank after
      { Treebank.Options.standard with root := last.vocabulary.rootLabel } path = .ok trees := by
    rw [← plain.options rooted]
    simpa only [Corpus.readTreebank, unchanged] using read
  -- The trees can be built for the substates of the model, because the run has done so.
  obtain ⟨forest, rebuilt, same⟩ := Forest.ofTrees_of_skeletons built keeps.skeletons_eq
    settled.validation
  rw [binarized, ← settings, ← keeps.vocabulary_eq, ← sized] at rebuilt
  obtain ⟨outcome, evaluated, found⟩ :=
    measures.evaluate (Forest.ofTrees_fits rebuilt) same
  let binary := trees.map
    (Treebank.binarize last.config.vertical last.config.horizontal last.config.binarization)
  refine ⟨⟨path, binary.length, outcome⟩, ?_, found⟩
  unfold Inspection.reportTreebank
  rw [show (last.checkpoint model).vocabulary.indexed = last.vocabulary from settled.indexed]
  refine bind_eq_ok_iff.mpr ⟨trees, mapError_eq_ok_iff.mpr readAgain, ?_⟩
  refine bind_eq_ok_iff.mpr
    ⟨forest, mapError_eq_ok_iff.mpr (mapError_eq_ok_iff.mpr rebuilt), ?_⟩
  exact bind_eq_ok_iff.mpr ⟨outcome, mapError_eq_ok_iff.mpr evaluated, rfl⟩

/-- The order of those numbers that are likelihoods. -/
structure Ordered (number : α → Prop) : Prop where
  total : ∀ x y, number x → number y → x < y ∨ y ≤ x
  le_of_lt : ∀ x y, number x → number y → x < y → x ≤ y

theorem Closes.le_final {number : α → Prop} (ordered : Ordered number) {latest final : α}
    {best : Model α} (closes : last.Closes latest best final) (isNumber : number latest)
    (areNumbers : ∀ likelihood, last.bestLikelihood = some likelihood → number likelihood) :
    latest ≤ final ∧ ∀ likelihood, last.bestLikelihood = some likelihood → likelihood ≤ final := by
  have refl {x : α} (isNumber : number x) : x ≤ x :=
    (ordered.total x x isNumber isNumber).elim (ordered.le_of_lt x x isNumber isNumber) id
  cases closes with
  | only unscored =>
    exact ⟨refl isNumber, fun _ known => nomatch unscored.symm.trans known⟩
  | @better likelihood known better =>
    refine ⟨refl isNumber, fun other again => ?_⟩
    obtain rfl := Option.some.inj (known.symm.trans again)
    exact ordered.le_of_lt _ _ (areNumbers _ known) isNumber better
  | best known worse =>
    refine ⟨(ordered.total _ _ (areNumbers _ known) isNumber).resolve_left worse,
      fun other again => ?_⟩
    obtain rfl := Option.some.inj (known.symm.trans again)
    exact refl (areNumbers _ known)

theorem Closes.best_measures (informed : last.Informed start stages) {latest final : α}
    {best : Model α} (closes : last.Closes latest best final)
    (measures : Measures last.candidate last.validation.skeletons latest) :
    Measures best last.validation.skeletons final := by
  cases closes with
  | only => exact measures
  | better => exact measures
  | best known => exact informed.keeps.skeletons_eq ▸ informed.best _ known

theorem Closes.substates_eq (settled : last.Settled root) {latest final : α} {best : Model α}
    (closes : last.Closes latest best final) : best.substates = last.best.substates := by
  cases closes with
  | only => exact settled.substates_eq
  | better => exact settled.substates_eq
  | best => rfl

end Run

variable [TotalOrder α] [Draws γ α]

/-- A run that ends with a report was prepared, went through its loops, and was closed. -/
theorem train_result {seeded : Nat → γ} {report : Report α}
    (done : (train seeded config sources).result = .ok report) :
    ∃ (corpus : Corpus) (start last : Run α γ) (stages : List (Stage α)),
      Corpus.load sources config = .ok corpus ∧
      Run.prepare seeded config sources corpus = .ok start ∧
      start.finish = .ok (last, stages) ∧ last.close stages = .ok report := by
  unfold train at done
  split at done
  · cases done
  · split at done
    · cases done
    · rename_i corpus loaded
      unfold trainOn at done
      split at done
      · rename_i start prepared
        rw [Run.execute_result] at done
        obtain ⟨⟨last, stages⟩, finished, closed⟩ :=
          bind_eq_ok_iff.mp (Run.mapError_eq_ok_iff.mp done)
        exact ⟨corpus, start, last, stages, loaded, prepared, finished, closed⟩
      · cases done

/-- A fresh run that has read its held-out trees plainly reports the likelihood that an inspection of
the saved checkpoint finds on the file of these trees, if the file is the same and the checkpoint is
loaded as it was saved. This is at least the likelihood of the best model after the last stage, if
there was any, and that of the latest model, which the final evaluation scores for the first time:
the one that an inspection of it would find. -/
theorem train_reports_inspected (seeded : Nat → γ) (config : Config α) (sources after : Sources α)
    (report : Report α) (path : String) (plain : config.ReadsPlainly path)
    (done : (train seeded config sources).result = .ok report)
    (unchanged : after.text path = sources.text path)
    (loads : after.checkpoint report.output = .ok report.checkpoint) :
    (∃ checkpoint summary, after.checkpoint report.output = .ok checkpoint ∧
      Inspection.reportTreebank after checkpoint path = .ok summary ∧
      summary.outcome.logLikelihood = report.finalLikelihood) ∧
    ∃ (corpus : Corpus) (start last : Run α γ) (latest : TreebankReport α),
      Corpus.load sources config = .ok corpus ∧
      Run.prepare seeded config sources corpus = .ok start ∧
      start.finish = .ok (last, report.stages) ∧
      Inspection.reportTreebank after (last.checkpoint last.candidate) path = .ok latest ∧
      ∀ number : α → Prop, Run.Ordered number → number latest.outcome.logLikelihood →
        (∀ stage, report.stages.getLast? = some stage → number stage.bestLikelihood) →
        latest.outcome.logLikelihood ≤ report.finalLikelihood ∧
          ∀ stage, report.stages.getLast? = some stage →
            stage.bestLikelihood ≤ report.finalLikelihood := by
  obtain ⟨corpus, start, last, stages, loaded, prepared, finished, closed⟩ := train_result done
  obtain ⟨root, startSettled⟩ := Run.prepare_settled
    (fun _ _ resumes _ => nomatch plain.fresh.symm.trans resumes) prepared
  have fresh := Run.prepare_fresh plain.fresh prepared
  obtain ⟨informed, settled⟩ := Run.Informed.finish startSettled fresh.unscored finished
  obtain ⟨latest, best, measures, closes, sameStages, -, saved⟩ :=
    Run.close_closes settled closed
  subst sameStages
  obtain ⟨summary, inspects, found⟩ := Run.inspected plain loaded fresh unchanged settled
    informed.keeps (closes.substates_eq settled) (closes.best_measures informed measures)
  obtain ⟨summaryLatest, inspectsLatest, foundLatest⟩ := Run.inspected plain loaded fresh unchanged
    settled informed.keeps settled.substates_eq measures
  refine ⟨⟨_, summary, loads, saved ▸ inspects, found⟩, corpus, start, last, summaryLatest, loaded,
    prepared, finished, inspectsLatest, fun number ordered isNumber areNumbers => ?_⟩
  rw [foundLatest] at isNumber ⊢
  have recorded {stage : Stage α} (isLast : report.stages.getLast? = some stage) :
      last.bestLikelihood = some stage.bestLikelihood := by
    rw [informed.recorded, isLast]
    rfl
  obtain ⟨atLeast, better⟩ := closes.le_final ordered isNumber fun likelihood known => by
    rw [informed.recorded] at known
    obtain ⟨stage, isLast, rfl⟩ := Option.map_eq_some_iff.mp known
    exact areNumbers stage isLast
  exact ⟨atLeast, fun stage isLast => better _ (recorded isLast)⟩

/-- One round with single iterations, on held-out trees of their own. -/
def sampleSettings : Config Rat :=
  { Run.sampleConfig none with
    trainPath := some "train"
    validationPath := some "held-out"
    splitMinIterations := 1
    splitMaxIterations := 1
    mergeMinIterations := 1
    mergeMaxIterations := 1
    smoothMaxIterations := 1 }

def sampleTreebanks (path : String) : Except FileFault String :=
  if path == "train" then .ok "(ROOT (S (S rain) (S fell)))"
  else if path == "held-out" then .ok "(ROOT (S (S fell) (S rain)))"
  else .error .unreadable

theorem isOk_sampleRun : (train (fun _ => ()) sampleSettings
    ⟨sampleTreebanks, fun _ => .error .unreadable⟩).result.isOk = true := by
  decide +kernel

theorem sampleRun_reports_inspected :
    ∃ (report : Report Rat) (after : Sources Rat) (summary : TreebankReport Rat),
      (train (fun _ => ()) sampleSettings
        ⟨sampleTreebanks, fun _ => .error .unreadable⟩).result = .ok report ∧
      after.checkpoint report.output = .ok report.checkpoint ∧
      Inspection.reportTreebank after report.checkpoint "held-out" = .ok summary ∧
      summary.outcome.logLikelihood = report.finalLikelihood := by
  have succeeds := isOk_sampleRun
  cases done : (train (fun _ => ()) sampleSettings
      ⟨sampleTreebanks, fun _ => .error .unreadable⟩).result with
  | error fault => simp [done, Except.isOk, Except.toBool] at succeeds
  | ok report =>
    let after : Sources Rat := ⟨sampleTreebanks, fun _ => .ok report.checkpoint⟩
    obtain ⟨⟨checkpoint, summary, loaded, inspects, found⟩, -⟩ := train_reports_inspected
      (fun _ => ()) sampleSettings _ after report "held-out" ⟨rfl, rfl, rfl, rfl, rfl⟩ done rfl rfl
    obtain rfl := Except.ok.inj loaded
    exact ⟨report, after, summary, rfl, rfl, inspects, found⟩

end Training

end LatentGrammar
