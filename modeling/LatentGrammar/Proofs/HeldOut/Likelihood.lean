import LatentGrammar.Proofs.Consistency.Phases
import LatentGrammar.Proofs.Scoring.Skeleton

namespace LatentGrammar

variable {α : Type}

/-- The categories and words of all trees. -/
def Forest.skeletons (forest : Forest α) : List (LatentTree Unit) :=
  forest.trees.map LatentTree.skeleton

theorem forall₂_of_mapM {β ι : Type} {f : ι → Except Fault β} {items : List ι} {values : List β}
    (success : items.mapM f = .ok values) :
    List.Forall₂ (fun item value => f item = .ok value) items values :=
  (Delivers.mapM fun item _ => (delivers_any (f item)).mono_ok fun _ done _ => done).of_ok success

namespace Forest

theorem sweep_skeletons {β : Type}
    {step : Nat → LatentTree α → β → Except Fault (LatentTree α × β)}
    (keeps : ∀ index tree result next, step index tree result = .ok next →
      next.1.skeleton = tree.skeleton) (index : Nat) (trees : List (LatentTree α)) (start : β) :
    (sweep step index trees start).trees.map LatentTree.skeleton =
      trees.map LatentTree.skeleton := by
  induction trees generalizing index start with
  | nil => rfl
  | cons tree rest ih =>
    unfold sweep
    cases done : step index tree start with
    | error fault => rfl
    | ok next => simp only [List.map_cons, keeps index tree start next done, ih]

theorem sweep_congr {β : Type} {relation : LatentTree α → LatentTree α → Prop}
    {step : Nat → LatentTree α → β → Except Fault (LatentTree α × β)}
    (each : ∀ index tree other result, relation tree other →
      (step index tree result).map Prod.snd = (step index other result).map Prod.snd)
    {trees others : List (LatentTree α)} (all : List.Forall₂ relation trees others) (index : Nat)
    (start : β) :
    (sweep step index trees start).result = (sweep step index others start).result ∧
      (sweep step index trees start).fault = (sweep step index others start).fault := by
  induction all generalizing index start with
  | nil => exact ⟨rfl, rfl⟩
  | @cons tree other rest others related _ ih =>
    have same := each index tree other start related
    unfold sweep
    cases one : step index tree start with
    | error fault =>
      cases two : step index other start with
      | error fault' =>
        rw [one, two] at same
        exact ⟨rfl, congrArg some (Except.error.inj same)⟩
      | ok next =>
        rw [one, two] at same
        cases same
    | ok next =>
      cases two : step index other start with
      | error fault =>
        rw [one, two] at same
        cases same
      | ok next' =>
        rw [one, two] at same
        have results : next.2 = next'.2 := Except.ok.inj same
        simp only [results]
        exact ih (index + 1) next'.2

variable [Scalar α] {forest other resized : Forest α} {substates old : List Nat}

theorem resize_skeletons (success : forest.resize substates = .ok resized) :
    resized.skeletons = forest.skeletons := by
  obtain ⟨trees, each, done⟩ := bind_eq_ok_iff.mp success
  obtain rfl := Except.ok.inj done
  have all := forall₂_of_mapM each
  unfold skeletons
  clear each success done
  generalize forest.trees = sources at all
  induction all with
  | nil => rfl
  | cons built _ ih => simp only [List.map_cons, LatentTree.resize_skeleton built, ih]

theorem fit_skeletons (success : Training.Run.fit forest substates = .ok resized) :
    resized.skeletons = forest.skeletons := by
  unfold Training.Run.fit at success
  split at success
  · rw [Except.ok.inj success]
  · exact resize_skeletons success

theorem forall₂_alike (same : forest.skeletons = other.skeletons) (fits : forest.Fits substates)
    (others : other.Fits substates) :
    List.Forall₂ LatentTree.Alike forest.trees other.trees := by
  have length : forest.trees.length = other.trees.length := by
    simpa [skeletons] using congrArg List.length same
  refine forall₂_of_getElem? length fun index tree tree' found found' => ?_
  have skeleton := congrArg (·[index]?) same
  simp only [skeletons, List.getElem?_map, found, found', Option.map_some,
    Option.some.injEq] at skeleton
  exact LatentTree.alike_of_skeleton skeleton (fits.trees tree (List.mem_of_getElem? found))
    (others.trees tree' (List.mem_of_getElem? found'))

/-- A forest that was built for some substates can be built for others that a forest of its
skeletons fits. -/
theorem ofTrees_of_skeletons {trees : List Tree} {vocabulary : Vocabulary}
    (built : ofTrees trees old vocabulary = .ok forest)
    (same : other.skeletons = forest.skeletons) (fits : other.Fits substates) :
    ∃ result : Forest α, ofTrees trees substates vocabulary = .ok result ∧
      result.skeletons = other.skeletons := by
  obtain ⟨latent, each, done⟩ := bind_eq_ok_iff.mp built
  obtain rfl := Except.ok.inj done
  have all := forall₂_of_mapM each
  obtain ⟨others, _⟩ := other
  replace fits := fits.trees
  suffices mapped : ∃ result, trees.mapM (LatentTree.ofTree substates vocabulary) = .ok result ∧
      result.map LatentTree.skeleton = others.map LatentTree.skeleton by
    obtain ⟨result, success, kept⟩ := mapped
    exact ⟨⟨result, substates⟩, by rw [ofTrees, success]; rfl, kept⟩
  dsimp only [skeletons] at same fits
  clear built each done
  induction all generalizing others with
  | nil =>
    obtain rfl := List.map_eq_nil_iff.mp same
    exact ⟨[], rfl, rfl⟩
  | cons built _ ih =>
    cases others with
    | nil => cases same
    | cons tree rest =>
      obtain ⟨here, below⟩ := List.cons.inj same
      obtain ⟨treeFits, restFit⟩ := List.forall_mem_cons.mp fits
      obtain ⟨result, success, kept⟩ := LatentTree.ofTree_of_skeleton built here treeFits
      obtain ⟨later, laterSuccess, laterKept⟩ := ih rest below restFit
      refine ⟨result :: later, ?_, by rw [List.map_cons, List.map_cons, kept, laterKept]⟩
      rw [List.mapM_cons, success, laterSuccess]
      rfl

end Forest

namespace Training

variable [Scalar α] {model : Model α} {forest other : Forest α} {substates : List Nat}

theorem evaluateTree_skeleton {tree : LatentTree α} {outcome : Outcome α}
    {next : LatentTree α × Outcome α} (success : evaluateTree model tree outcome = .ok next) :
    next.1.skeleton = tree.skeleton := by
  obtain ⟨scored, computed, success⟩ := bind_eq_ok_iff.mp success
  obtain ⟨mass, -, success⟩ := bind_eq_ok_iff.mp success
  have kept := LatentTree.computeInside_skeleton computed
  split at success
  · obtain ⟨logLikelihood, -, done⟩ := bind_eq_ok_iff.mp success
    obtain rfl := Except.ok.inj done
    exact kept
  · obtain rfl := Except.ok.inj success
    exact kept

theorem evaluate_skeletons (model : Model α) (forest : Forest α) :
    (evaluate model forest).1.skeletons = forest.skeletons :=
  Forest.sweep_skeletons (fun _ _ _ _ success => evaluateTree_skeleton success) 0 forest.trees _

theorem evaluateTree_congr (model : Model α) {tree other : LatentTree α}
    (alike : tree.Alike other) (outcome : Outcome α) :
    (evaluateTree model tree outcome).map Prod.snd =
      (evaluateTree model other outcome).map Prod.snd := by
  have same := LatentTree.computeInside_congr alike model
  unfold evaluateTree
  cases one : tree.computeInside model with
  | error fault =>
    cases two : other.computeInside model with
    | error fault' =>
      rw [one, two] at same
      exact congrArg Except.error (Except.error.inj same)
    | ok scored =>
      rw [one, two] at same
      cases same
  | ok scored =>
    cases two : other.computeInside model with
    | error fault =>
      rw [one, two] at same
      cases same
    | ok scored' =>
      rw [one, two] at same
      have insides := LatentTree.inside_eq_of_insideOnly (Except.ok.inj same)
      simp only [ok_bind, LatentTree.logLikelihood, LatentTree.mass, insides]
      cases fetch scored'.inside.values 0 with
      | error fault => rfl
      | ok mass =>
        simp only [ok_bind, pure_bind]
        split <;> rfl

/-- What a model makes of a forest depends on the skeletons of its trees. -/
theorem evaluate_congr (same : forest.skeletons = other.skeletons) (fits : forest.Fits substates)
    (others : other.Fits substates) (model : Model α) :
    (evaluate model forest).2 = (evaluate model other).2 := by
  obtain ⟨result, fault⟩ := Forest.sweep_congr
    (fun _ tree other outcome (alike : tree.Alike other) => evaluateTree_congr model alike outcome)
    (Forest.forall₂_alike same fits others) 0 (Outcome.start : Outcome α)
  simp only [evaluate, Pass.ofSweep, result, fault]

/-- The model gives trees of the given skeletons this likelihood, once they have scores for its
numbers of substates. -/
def Measures (model : Model α) (skeletons : List (LatentTree Unit)) (likelihood : α) : Prop :=
  ∃ (forest : Forest α) (outcome : Outcome α), forest.Fits model.substates ∧
    forest.skeletons = skeletons ∧ (evaluate model forest).2 = .ok outcome ∧
    outcome.logLikelihood = likelihood

/-- The likelihood is found in every forest of these skeletons. -/
theorem Measures.evaluate {skeletons : List (LatentTree Unit)} {likelihood : α}
    (measures : Measures model skeletons likelihood) (fits : forest.Fits model.substates)
    (same : forest.skeletons = skeletons) :
    ∃ outcome, (Training.evaluate model forest).2 = .ok outcome ∧
      outcome.logLikelihood = likelihood := by
  obtain ⟨measured, outcome, measuredFits, rfl, success, found⟩ := measures
  exact ⟨outcome, (evaluate_congr same fits measuredFits model).trans success, found⟩

end Training

end LatentGrammar
