import LatentGrammar.Proofs.Binarization.Categories
import LatentGrammar.Proofs.Saving.Checkpoints
import LatentGrammar.Proofs.Saving.Texts

namespace LatentGrammar

namespace Vocabulary

variable {vocabulary stored copy : Vocabulary} {label other : String} {id : Nat} {fault : Fault}

theorem id_eq_ok_iff : vocabulary.id label = .ok id ↔ vocabulary.id? label = some id := by
  unfold Vocabulary.id
  cases vocabulary.id? label with
  | none => simp
  | some number => simp

theorem id_eq_error_iff :
    vocabulary.id label = .error fault ↔
      vocabulary.id? label = none ∧ fault = .unknownCategory label := by
  unfold Vocabulary.id
  cases vocabulary.id? label with
  | none => simp [eq_comm]
  | some number => simp

theorem id_congr {next : Vocabulary} (same : next.id? label = vocabulary.id? label) :
    next.id label = vocabulary.id label := by
  rw [Vocabulary.id, Vocabulary.id, same]

/-- Every label has one number, which is its place in the table, and nothing else has a number; the
root is a label like any other. -/
structure Bijective (vocabulary : Vocabulary) : Prop where
  distinct : vocabulary.labels.Nodup
  id_iff : ∀ label id, vocabulary.id label = .ok id ↔ vocabulary.label? id = some label
  unknown_iff : ∀ label fault, vocabulary.id label = .error fault ↔
    label ∉ vocabulary.labels ∧ fault = .unknownCategory label
  root_iff : ∀ id, vocabulary.root? = some id ↔ vocabulary.label? id = some vocabulary.rootLabel

theorem Indexed.bijective (indexed : vocabulary.Indexed) (distinct : vocabulary.labels.Nodup) :
    vocabulary.Bijective where
  distinct := distinct
  id_iff _ _ := id_eq_ok_iff.trans (indexed.id?_eq_some_iff distinct)
  unknown_iff _ _ := id_eq_error_iff.trans (and_congr_left' indexed.id?_eq_none_iff)
  root_iff _ := indexed.id?_eq_some_iff distinct

theorem intern_known (known : vocabulary.id? label = some id) :
    vocabulary.intern label = (id, vocabulary) := by
  rw [intern, known]

theorem intern_new (new : vocabulary.id? label = none) :
    vocabulary.intern label = (vocabulary.size,
      { vocabulary with
        labels := vocabulary.labels ++ [label]
        index := (label, vocabulary.size) :: vocabulary.index }) := by
  rw [intern, new]

theorem id?_intern_self (vocabulary : Vocabulary) (label : String) :
    (vocabulary.intern label).2.id? label = some (vocabulary.intern label).1 := by
  cases known : vocabulary.id? label with
  | some id => rw [intern_known known, known]
  | none =>
    rw [intern_new known]
    exact List.lookup_cons_self

theorem id?_intern_of_ne (vocabulary : Vocabulary) (different : other ≠ label) :
    (vocabulary.intern label).2.id? other = vocabulary.id? other := by
  cases known : vocabulary.id? label with
  | some id => rw [intern_known known]
  | none =>
    have apart : (other == label) = false := beq_eq_false_iff_ne.mpr different
    rw [intern_new known, Vocabulary.id?, List.lookup_cons, apart]
    rfl

theorem Indexed.intern_distinct (indexed : vocabulary.Indexed) (distinct : vocabulary.labels.Nodup)
    (label : String) : (vocabulary.intern label).2.labels.Nodup := by
  rw [indexed.intern_labels]
  by_cases known : label ∈ vocabulary.labels
  · rwa [if_pos known]
  · rw [if_neg known]
    exact List.nodup_append_comm.mp (List.nodup_cons.mpr ⟨known, distinct⟩)

/-- What is read from the text that a vocabulary is written as. -/
def reread? (vocabulary : Vocabulary) : Option Vocabulary :=
  (Json.read? (vocabulary.encode : Json Float).render).bind decode?

theorem encode_textual (vocabulary : Vocabulary) : (vocabulary.encode : Json Float).Textual := by
  have labels : (Json.array (vocabulary.labels.map Json.string) : Json Float).Textual :=
    .array (List.forall_mem_map.mpr fun label _ => .string label)
  refine .object (List.forall_mem_cons.mpr ⟨labels, ?_⟩)
  exact List.forall_mem_singleton.mpr (.string vocabulary.rootLabel)

/-- The text holds the table, but not the index. -/
theorem reread?_eq (vocabulary : Vocabulary) :
    vocabulary.reread? = some (.unindexed vocabulary.labels vocabulary.rootLabel) := by
  have decoded := (recovers (α := Float) vocabulary).eq_ite
  rw [reread?, vocabulary.encode_textual.read?_render]
  simpa using decoded

/-- The vocabulary itself, or what is read from its text. -/
def Copies (copy stored : Vocabulary) : Prop := copy = stored ∨ stored.reread? = some copy

/-- Nothing is left of the old table, and nothing of the new one is lost. -/
theorem Copies.restore_eq (copies : copy.Copies stored) (indexed : stored.Indexed)
    (vocabulary : Vocabulary) : vocabulary.restore copy = stored := by
  rcases copies with rfl | read
  · exact indexed
  · rw [reread?_eq] at read
    obtain rfl := Option.some.inj read
    exact indexed

/-- New vocabularies, and those that interning and taking over other ones make of them; what is taken
over came about in the same way, and may have been written and read back. -/
inductive Reached : Vocabulary → Prop where
  | empty (rootLabel : String) : Reached (.empty rootLabel)
  | intern {vocabulary : Vocabulary} (label : String) (before : Reached vocabulary) :
    Reached (vocabulary.intern label).2
  | restore {vocabulary stored copy : Vocabulary} (before : Reached vocabulary)
      (source : Reached stored) (copies : copy.Copies stored) : Reached (vocabulary.restore copy)

/-- Table and index stay in step, and no label is entered twice. -/
theorem Reached.indexed_distinct (reached : vocabulary.Reached) :
    vocabulary.Indexed ∧ vocabulary.labels.Nodup := by
  induction reached with
  | empty rootLabel => exact ⟨indexed_empty rootLabel, List.nodup_nil⟩
  | intern label _ ih => exact ⟨ih.1.intern label, ih.1.intern_distinct ih.2 label⟩
  | restore _ _ copies _ source => exact copies.restore_eq source.1 _ ▸ source

/-- A vocabulary stays a bijection with stable numbers. Labels are distinct, are found by their
numbers and their numbers by them, and no other label is known. A known label keeps its number and
changes nothing; a new one is put at the end and changes no other number. Written and read back, a
vocabulary has lost its index; taken over, as it is or read back, it is there again as it was, and the
labels of the old table are gone. -/
theorem Reached.stays_bijective (reached : vocabulary.Reached) :
    vocabulary.Bijective ∧
    (∀ label id, vocabulary.label? id = some label →
      vocabulary.intern label = (id, vocabulary)) ∧
    (∀ label, label ∉ vocabulary.labels → ∃ next,
      vocabulary.intern label = (vocabulary.size, next) ∧
      next.labels = vocabulary.labels ++ [label] ∧ next.rootLabel = vocabulary.rootLabel ∧
      next.id label = .ok vocabulary.size ∧
      ∀ other, other ≠ label → next.id other = vocabulary.id other) ∧
    vocabulary.reread? = some (.unindexed vocabulary.labels vocabulary.rootLabel) ∧
    ∀ stored copy : Vocabulary, stored.Reached → copy.Copies stored →
      vocabulary.restore copy = stored ∧
      ∀ label ∈ vocabulary.labels, label ∉ stored.labels →
        (vocabulary.restore copy).id label = .error (.unknownCategory label) := by
  obtain ⟨indexed, distinct⟩ := reached.indexed_distinct
  refine ⟨indexed.bijective distinct, fun label id found => ?_, fun label new => ?_,
    vocabulary.reread?_eq, fun stored copy source copies => ?_⟩
  · exact intern_known ((indexed.id?_eq_some_iff distinct).mpr found)
  · have interned := intern_new (indexed.id?_eq_none_iff.mpr new)
    have found := id?_intern_self vocabulary label
    rw [interned] at found
    refine ⟨_, interned, rfl, rfl, id_eq_ok_iff.mpr found, fun other different => id_congr ?_⟩
    have kept := id?_intern_of_ne vocabulary different
    rwa [interned] at kept
  · obtain ⟨sourceIndexed, sourceDistinct⟩ := source.indexed_distinct
    have restored := copies.restore_eq sourceIndexed vocabulary
    refine ⟨restored, fun label _ gone => ?_⟩
    rw [restored]
    exact ((sourceIndexed.bijective sourceDistinct).unknown_iff label _).mpr ⟨gone, rfl⟩

/-- The categories of a sentence. -/
def sentenceLabels : Vocabulary := (((empty "ROOT").intern "ROOT").2.intern "S").2

/-- Read back, the categories of the sentence have no numbers; taken over, they have them again, and
what was numbered before is unknown. -/
theorem sentenceLabels_taken_over : ∃ copy, sentenceLabels.reread? = some copy ∧
    copy.id "S" = .error (.unknownCategory "S") ∧
    (((empty "TOP").intern "X").2.restore copy).id "S" = .ok 1 ∧
    (((empty "TOP").intern "X").2.restore copy).id "X" = .error (.unknownCategory "X") ∧
    (((empty "TOP").intern "X").2.restore copy).root? = some 0 := by
  have fragment : ((empty "TOP").intern "X").2.Reached := .intern "X" (.empty "TOP")
  have sentence : sentenceLabels.Reached := .intern "S" (.intern "ROOT" (.empty "ROOT"))
  obtain ⟨bijective, -, -, written, -⟩ := Reached.stays_bijective sentence
  obtain ⟨-, -, -, -, taken⟩ := Reached.stays_bijective fragment
  obtain ⟨restored, gone⟩ := taken _ _ sentence (.inr written)
  refine ⟨_, written, rfl, ?_, gone "X" (by decide) (by decide), ?_⟩
  · rw [restored]
    exact (bijective.id_iff "S" 1).mpr (by decide)
  · rw [restored]
    exact (bijective.root_iff 0).mpr (by decide)

end Vocabulary

end LatentGrammar
