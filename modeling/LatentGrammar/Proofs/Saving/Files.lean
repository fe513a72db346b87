import LatentGrammar.Proofs.Saving.Checkpoints
import LatentGrammar.Storage

namespace LatentGrammar

theorem Contents.toCheckpoint_ofCheckpoint {checkpoint : Checkpoint Float}
    (proper : checkpoint.Proper) :
    (Contents.ofCheckpoint checkpoint).toCheckpoint =
      if checkpoint.numbers.all Scalar.isFinite then .ok checkpoint else .error .undecodable := by
  simp only [toCheckpoint, ofCheckpoint, Option.bind_some, (Checkpoint.recovers proper).eq_ite]
  by_cases finite : checkpoint.numbers.all Scalar.isFinite = true
  · simp only [if_pos finite]
  · simp only [if_neg finite]

namespace Storage

variable {storage : Storage} {path other : String} {contents : Contents}

theorem follow_files (files : List (List String × Contents)) (place names : List String) :
    ({ storage with files } : Storage).follow place names = storage.follow place names := by
  induction names generalizing place with
  | nil => rfl
  | cons name rest ih =>
    unfold follow
    simp only [ih]
    rfl

theorem target?_write (path : String) (contents : Contents) (other : String) :
    (storage.write path contents).target? other = storage.target? other := by
  unfold write
  split
  · simp only [target?, follow_files]
  · rfl

theorem locate_write (path : String) (contents : Contents) (other : String) :
    (storage.write path contents).locate other = storage.locate other := by
  rw [locate, target?_write, locate]

theorem find?_write (writable : storage.isWritable path = true) (contents : Contents) :
    (storage.write path contents).find? path = some contents := by
  obtain ⟨place, located⟩ := Option.isSome_iff_exists.mp writable
  rw [find?, locate_write, located, write, located]
  exact List.lookup_cons_self

theorem lookup_filter_ne {place written : List String} (different : place ≠ written)
    (files : List (List String × Contents)) :
    (files.filter (·.1 != written)).lookup place = files.lookup place := by
  induction files with
  | nil => rfl
  | cons file rest ih =>
    by_cases same : file.1 = written
    · rw [List.filter_cons_of_neg (by simpa using same), ih, List.lookup_cons,
        beq_eq_false_iff_ne.mpr (same ▸ different)]
    · rw [List.filter_cons_of_pos (by simpa using same), List.lookup_cons, List.lookup_cons, ih]

theorem find?_write_of_ne (different : storage.locate path ≠ storage.locate other)
    (contents : Contents) : (storage.write other contents).find? path = storage.find? path := by
  rw [find?, locate_write, find?, write]
  cases written : storage.locate other with
  | none => rfl
  | some place =>
    cases located : storage.locate path with
    | none => rfl
    | some found =>
      rw [located, written] at different
      have apart : found ≠ place := fun same => different (congrArg some same)
      rw [Option.bind_some, Option.bind_some, List.lookup_cons, beq_eq_false_iff_ne.mpr apart]
      exact lookup_filter_ne apart _

theorem checkpoint_eq (found : storage.find? path = some contents) :
    storage.sources.checkpoint path = contents.toCheckpoint := by
  obtain ⟨place, located, -⟩ := Option.bind_eq_some_iff.mp found
  have leads : storage.target? path = some (.file place) := by
    unfold locate at located
    split at located
    · obtain rfl := Option.some.inj located
      assumption
    · cases located
  simp only [sources, leads, Training.Sources.ofFiles, found, Option.map_some, Option.getD_some]

/-- Saves some models in their order. -/
def writeAll (storage : Storage) (saves : List (String × Checkpoint Float)) : Storage :=
  saves.foldl (fun storage (path, checkpoint) => storage.write path (.ofCheckpoint checkpoint))
    storage

theorem locate_writeAll (saves : List (String × Checkpoint Float)) (path : String) :
    (storage.writeAll saves).locate path = storage.locate path := by
  induction saves generalizing storage with
  | nil => rfl
  | cons save rest ih => exact ih.trans (locate_write _ _ _)

theorem find?_writeAll_of_ne {saves : List (String × Checkpoint Float)}
    (different : ∀ save ∈ saves, storage.locate path ≠ storage.locate save.1) :
    (storage.writeAll saves).find? path = storage.find? path := by
  induction saves generalizing storage with
  | nil => rfl
  | cons save rest ih =>
    obtain ⟨here, later⟩ := List.forall_mem_cons.mp different
    refine (ih fun save member => ?_).trans (find?_write_of_ne here _)
    rw [locate_write, locate_write]
    exact later save member

/-- Of the models that a run saves, each one is loaded from its path exactly if all of its numbers
are finite, unless a later one is saved to the same place. -/
theorem saveAll_checkpoint {attempt : Training.Attempt Float}
    {earlier later : List (String × Checkpoint Float)} {checkpoint : Checkpoint Float}
    (saves : attempt.saves = earlier ++ (path, checkpoint) :: later)
    (last : ∀ save ∈ later, storage.locate path ≠ storage.locate save.1)
    (writable : storage.isWritable path = true) (proper : checkpoint.Proper) :
    (storage.saveAll attempt).sources.checkpoint path =
      if checkpoint.numbers.all Scalar.isFinite then .ok checkpoint else .error .undecodable := by
  have saved : storage.saveAll attempt =
      ((storage.writeAll earlier).write path (.ofCheckpoint checkpoint)).writeAll later := by
    rw [saveAll, saves, List.foldl_append]
    rfl
  have found : (storage.saveAll attempt).find? path = some (.ofCheckpoint checkpoint) := by
    rw [saved, find?_writeAll_of_ne, find?_write]
    · rw [isWritable, locate_writeAll]
      exact writable
    · intro save member
      rw [locate_write, locate_write, locate_writeAll, locate_writeAll]
      exact last save member
  rw [checkpoint_eq found, Contents.toCheckpoint_ofCheckpoint proper]

/-- The final model of a run that succeeds is loaded as it was reported. -/
theorem saveAll_output {attempt : Training.Attempt Float} {report : Training.Report Float}
    (done : attempt.result = .ok report) (writable : storage.isWritable report.output = true)
    (proper : report.checkpoint.Proper)
    (finite : report.checkpoint.numbers.all Scalar.isFinite = true) :
    (storage.saveAll attempt).sources.checkpoint report.output = .ok report.checkpoint := by
  have saves : attempt.saves = attempt.stages.filterMap Training.Stage.checkpoint ++
      [(report.output, report.checkpoint)] := by
    rw [Training.Attempt.saves, done]
  rw [saveAll_checkpoint saves (by simp) writable proper, if_pos finite]

end Storage

end LatentGrammar
