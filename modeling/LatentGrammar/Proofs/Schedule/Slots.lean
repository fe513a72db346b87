import LatentGrammar.Proofs.HeldOut.Best

namespace LatentGrammar.Training

variable {α γ : Type} [Scalar α]

namespace Config

/-- A run that goes on from a saved model and does not split it begins with the second slot. -/
def startSlot (config : Config α) : Nat := if config.resume.isSome && config.noSplit then 1 else 0

/-- The number of slots; the baseline has none. -/
def slotCount (config : Config α) : Except Fault Nat :=
  if config.baseline then .ok 0 else word (config.rounds * 3)

/-- The phases of `count` slots from `slot` on with their rounds, those that are used. -/
def slots (config : Config α) (slot count : Nat) : List (Phase × Nat) :=
  ((List.range' slot count).map fun slot => (Phase.atSlot slot, slot / 3 + 1)).filter
    (·.1.isUsed config)

theorem slots_append (config : Config α) (slot one two : Nat) :
    config.slots slot one ++ config.slots (slot + one) two = config.slots slot (one + two) := by
  unfold slots
  rw [← List.filter_append, ← List.map_append, List.range'_append_1]

theorem slots_round (config : Config α) (round : Nat) :
    config.slots (round * 3) 3 = config.phases.map fun phase => (phase, round + 1) := by
  have phases : (List.range' (round * 3) 3).map (fun slot => (Phase.atSlot slot, slot / 3 + 1)) =
      [.split, .merge, .smooth].map fun phase => (phase, round + 1) := by
    have places : round * 3 % 3 = 0 ∧ (round * 3 + 1) % 3 = 1 ∧
        (round * 3 + 2) % 3 = 2 := by omega
    have rounds : round * 3 / 3 = round ∧ (round * 3 + 1) / 3 = round ∧
        (round * 3 + 2) / 3 = round := by omega
    simp [List.range'_succ, Phase.atSlot, places, rounds]
  rw [slots, phases, List.filter_map]
  rfl

/-- The slots of all rounds are the phases of one round after the other. -/
theorem slots_rounds (config : Config α) (count round : Nat) :
    config.slots (round * 3) (count * 3) =
      (List.range' (round + 1) count).flatMap fun round =>
        config.phases.map fun phase => (phase, round) := by
  induction count generalizing round with
  | zero => rfl
  | succ count ih =>
    rw [List.range'_succ, List.flatMap_cons, ← slots_round, ← ih, Nat.succ_mul round, slots_append,
      Nat.succ_mul, Nat.add_comm]

/-- The slot that a resumed run leaves out is one that it would pass over. -/
theorem slots_startSlot (config : Config α) (count : Nat) :
    config.slots config.startSlot (count * 3 - config.startSlot) = config.slots 0 (count * 3) := by
  unfold startSlot
  split
  · rename_i later
    cases count with
    | zero => rfl
    | succ count =>
      have unsplit : config.noSplit = true := (Bool.and_eq_true_iff.mp later).2
      have unused : config.slots 0 1 = [] := by
        simp [slots, Phase.atSlot, Phase.isUsed, unsplit]
      have grouped : (count + 1) * 3 = 1 + (count * 3 + 2) := by omega
      rw [grouped, Nat.add_sub_cancel_left, ← slots_append config 0 1, unused, List.nil_append]
  · rfl

end Config

namespace Run

variable [Draws γ α] [TotalOrder α] {run next : Run α γ}

/-- Runs `count` slots from `slot` on, until one fails. -/
def runSlots (slot : Nat) : Nat → Run α γ → List (Stage α) × Except Fault (Run α γ)
  | 0, run => ([], .ok run)
  | count + 1, run =>
    let phase := Phase.atSlot slot
    if phase.isUsed run.config then
      match run.runPhase phase (slot / 3 + 1) with
      | .error fault => ([], .error fault)
      | .ok (run, stage) =>
        let (stages, result) := runSlots (slot + 1) count run
        (stage :: stages, result)
    else runSlots (slot + 1) count run

/-- Runs some phases of some rounds one after the other, until one fails. -/
def runAll : List (Phase × Nat) → Run α γ → List (Stage α) × Except Fault (Run α γ)
  | [], run => ([], .ok run)
  | (phase, round) :: rest, run =>
    match run.runPhase phase round with
    | .error fault => ([], .error fault)
    | .ok (run, stage) =>
      let (stages, result) := runAll rest run
      (stage :: stages, result)

theorem runAll_append (one two : List (Phase × Nat)) (run : Run α γ) :
    runAll (one ++ two) run =
      match runAll one run with
      | (stages, .error fault) => (stages, .error fault)
      | (stages, .ok next) =>
        let (later, result) := runAll two next
        (stages ++ later, result) := by
  induction one generalizing run with
  | nil => rfl
  | cons head rest ih =>
    obtain ⟨phase, round⟩ := head
    rw [List.cons_append, runAll, runAll]
    cases run.runPhase phase round with
    | error fault => rfl
    | ok after =>
      simp only [ih]
      rcases runAll rest after.1 with ⟨stages, fault | next⟩
      · rfl
      · rfl

theorem runPhases_eq (round : Nat) (phases : List Phase) (run : Run α γ) :
    runPhases round phases run = runAll (phases.map fun phase => (phase, round)) run := by
  induction phases generalizing run with
  | nil => rfl
  | cons phase rest ih =>
    rw [runPhases, List.map_cons, runAll]
    cases run.runPhase phase round with
    | error fault => rfl
    | ok after => simp only [ih]

theorem runRounds_eq (phases : List Phase) (round count : Nat) (run : Run α γ) :
    runRounds phases round count run =
      runAll ((List.range' round count).flatMap fun round =>
        phases.map fun phase => (phase, round)) run := by
  induction count generalizing round run with
  | zero => rfl
  | succ count ih =>
    rw [runRounds, List.range'_succ, List.flatMap_cons, runAll_append, ← runPhases_eq]
    rcases runPhases round phases run with ⟨stages, fault | next⟩
    · rfl
    · simp only [ih]

theorem runPhase_config {phase : Phase} {round : Nat} {stage : Stage α}
    (done : run.runPhase phase round = .ok (next, stage)) : next.config = run.config := by
  obtain ⟨changed, transformed, done⟩ := bind_eq_ok_iff.mp done
  obtain ⟨⟨improved, unsaved⟩, improves, done⟩ := bind_eq_ok_iff.mp done
  obtain ⟨rfl, -⟩ := Prod.mk.inj (Except.ok.inj done)
  obtain ⟨sized, resized, improves⟩ := bind_eq_ok_iff.mp improves
  obtain ⟨outcome, -, improves⟩ := bind_eq_ok_iff.mp improves
  obtain ⟨⟨converged, sets⟩, -, improves⟩ := bind_eq_ok_iff.mp improves
  obtain ⟨rfl, -⟩ := Prod.mk.inj (Except.ok.inj improves)
  exact (resizeTrees_keeps resized).1.config_eq.trans (transform_keeps transformed).config_eq

theorem runSlots_eq (slot count : Nat) (run : Run α γ) :
    runSlots slot count run = runAll (run.config.slots slot count) run := by
  induction count generalizing slot run with
  | zero => rfl
  | succ count ih =>
    rw [runSlots, Config.slots, List.range'_succ, List.map_cons, List.filter_cons]
    dsimp only
    split
    · rw [runAll]
      cases ran : run.runPhase (Phase.atSlot slot) (slot / 3 + 1) with
      | error fault => rfl
      | ok after =>
        simp only [ih, runPhase_config ran]
        rfl
    · exact ih (slot + 1) run

theorem runSlots_startSlot (count : Nat) (run : Run α γ) :
    runSlots run.config.startSlot (count * 3 - run.config.startSlot) run =
      runRounds run.config.phases 1 count run := by
  have all := run.config.slots_rounds count 0
  rw [Nat.zero_mul] at all
  rw [runSlots_eq, Config.slots_startSlot, all, runRounds_eq]

/-- Running slot by slot is running round by round, with the same stages, the same result and the
same fault. -/
theorem execute_eq_runSlots (run : Run α γ) :
    run.execute = match run.config.slotCount with
      | .error fault => ⟨[], .error (.model fault)⟩
      | .ok slots =>
        let (stages, last) :=
          runSlots run.config.startSlot (slots - run.config.startSlot) run
        ⟨stages, lift (last.bind (·.conclude stages))⟩ := by
  unfold execute Config.roundCount Config.slotCount
  cases run.config.baseline with
  | true =>
    have none := run.runSlots_startSlot 0
    rw [Nat.zero_mul] at none
    simp only [if_true, none]
    rfl
  | false =>
    simp only [Bool.false_eq_true, if_false]
    cases counted : word (run.config.rounds * 3) with
    | error fault => rfl
    | ok slots =>
      obtain ⟨-, rfl⟩ := word_eq_ok_iff.mp counted
      simp only [runSlots_startSlot]
      have rounds : runRounds run.config.phases 1 run.config.rounds run =
          runRounds run.config.phases 1
            (if run.config.phases.isEmpty then 0 else run.config.rounds) run := by
        split
        · rename_i empty
          rw [runRounds_eq, runRounds_eq, List.isEmpty_iff.mp empty,
            List.flatMap_eq_nil_iff.mpr fun _ _ => List.map_nil]
          rfl
        · rfl
      rw [rounds]
      rfl

end Run

end LatentGrammar.Training
