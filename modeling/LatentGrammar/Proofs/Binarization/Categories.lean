import LatentGrammar.Proofs.Binarization.Places
import LatentGrammar.Proofs.Consistency.Start

namespace LatentGrammar

namespace Vocabulary

variable {vocabulary : Vocabulary} {label : String} {id : Nat}

theorem Indexed.mem_index_iff (indexed : vocabulary.Indexed) :
    (label, id) ∈ vocabulary.index ↔ vocabulary.labels[id]? = some label := by
  rw [← indexed_iff.mp indexed, List.mem_reverse, List.mem_zipIdx_iff_getElem?]

theorem Indexed.id?_eq_none_iff (indexed : vocabulary.Indexed) :
    vocabulary.id? label = none ↔ label ∉ vocabulary.labels := by
  rw [Vocabulary.id?, List.lookup_eq_none_iff, List.mem_iff_getElem?]
  constructor
  · rintro absent ⟨id, found⟩
    simpa using absent (label, id) (indexed.mem_index_iff.mpr found)
  · rintro absent ⟨other, id⟩ member
    rw [bne_iff_ne]
    rintro rfl
    exact absent ⟨id, indexed.mem_index_iff.mp member⟩

/-- Without repetitions, labels and numbers determine each other. -/
theorem Indexed.id?_eq_some_iff (indexed : vocabulary.Indexed) (distinct : vocabulary.labels.Nodup) :
    vocabulary.id? label = some id ↔ vocabulary.labels[id]? = some label := by
  have sound {id : Nat} (known : vocabulary.id? label = some id) :
      vocabulary.labels[id]? = some label := by
    obtain ⟨before, after, split, -⟩ := List.lookup_eq_some_iff.mp known
    exact indexed.mem_index_iff.mp (by simp [split])
  refine ⟨sound, fun found => ?_⟩
  cases known : vocabulary.id? label with
  | none => exact absurd (List.mem_of_getElem? found) (indexed.id?_eq_none_iff.mp known)
  | some other =>
    obtain ⟨here, same⟩ := List.getElem?_eq_some_iff.mp found
    obtain ⟨there, again⟩ := List.getElem?_eq_some_iff.mp (sound known)
    exact congrArg some (distinct.getElem_inj_iff.mp (again.trans same.symm))

theorem Indexed.intern_labels (indexed : vocabulary.Indexed) (label : String) :
    (vocabulary.intern label).2.labels =
      if label ∈ vocabulary.labels then vocabulary.labels else vocabulary.labels ++ [label] := by
  unfold Vocabulary.intern
  split
  · next known =>
    rw [if_pos]
    by_contra absent
    cases known.symm.trans (indexed.id?_eq_none_iff.mpr absent)
  · next absent => rw [if_neg (indexed.id?_eq_none_iff.mp absent)]

/-- Labels are only ever added, each of them once. -/
theorem Indexed.internAll_labels (indexed : vocabulary.Indexed)
    (distinct : vocabulary.labels.Nodup) (labels : List String) :
    ∃ added, (vocabulary.internAll labels).labels = vocabulary.labels ++ added ∧
      (vocabulary.labels ++ added).Nodup ∧
      ∀ label, label ∈ vocabulary.labels ++ added ↔ label ∈ vocabulary.labels ∨ label ∈ labels := by
  induction labels generalizing vocabulary with
  | nil => exact ⟨[], by simp [Vocabulary.internAll], by simpa using distinct, by simp⟩
  | cons first rest ih =>
    have step := indexed.intern_labels first
    by_cases known : first ∈ vocabulary.labels
    · rw [if_pos known] at step
      obtain ⟨added, grown, once, holds⟩ := ih (indexed.intern first) (step ▸ distinct)
      rw [step] at grown once holds
      refine ⟨added, grown, once, fun label => (holds label).trans ?_⟩
      rw [List.mem_cons]
      exact ⟨.imp_right .inr, fun either => either.elim .inl fun later =>
        later.elim (fun same => .inl (same ▸ known)) .inr⟩
    · rw [if_neg known] at step
      have separate : (vocabulary.labels ++ [first]).Nodup := by
        rw [List.nodup_append]
        refine ⟨distinct, List.nodup_singleton first, ?_⟩
        intro label member other only same
        exact known (List.mem_singleton.mp only ▸ same ▸ member)
      obtain ⟨added, grown, once, holds⟩ := ih (indexed.intern first) (step ▸ separate)
      rw [step, List.append_assoc, List.singleton_append] at grown once holds
      refine ⟨first :: added, grown, once, fun label => (holds label).trans ?_⟩
      simp [or_assoc]

end Vocabulary

namespace Training

/-- Some tree has the label at a place where the property holds. -/
def Occurs (property : Tree → Bool) (trees : List Tree) (label : String) : Prop :=
  ∃ tree ∈ trees, tree.Somewhere fun node => property node = true ∧ node.label = label

/-- The vocabulary holds the categories of the trees, each once and tags first, and every category
but the root has the given number of substates. -/
structure Registers (trees : List Tree) (root : String) (count : Nat) (vocabulary : Vocabulary)
    (substates : List Nat) : Prop where
  distinct : vocabulary.labels.Nodup
  mem_iff : ∀ label, label ∈ vocabulary.labels ↔ Occurs (fun node => !node.isLeaf) trees label
  id_iff : ∀ label id, vocabulary.id? label = some id ↔ vocabulary.labels[id]? = some label
  tags_first : ∀ tag other early late,
    Occurs Tree.isPreterminal trees tag → ¬Occurs Tree.isPreterminal trees other →
    vocabulary.id? tag = some early → vocabulary.id? other = some late → early < late
  length_eq : substates.length = vocabulary.size
  counts : ∀ label id, vocabulary.id? label = some id →
    substates[id]? = some (if label = root then 1 else count)

theorem mem_tags_iff {trees : List Tree} {label : String} :
    label ∈ trees.flatMap Tree.tags ↔ Occurs Tree.isPreterminal trees label := by
  rw [List.mem_flatMap]
  exact exists_congr fun tree => and_congr_right fun _ => Tree.mem_tags_iff

theorem mem_categories_iff {trees : List Tree} {label : String} :
    label ∈ trees.flatMap Tree.categories ↔ Occurs (fun node => !node.isLeaf) trees label := by
  rw [List.mem_flatMap]
  simp only [Occurs, Bool.not_eq_true']
  exact exists_congr fun tree => and_congr_right fun _ => Tree.mem_categories_iff

theorem Occurs.category {trees : List Tree} {label : String}
    (occurs : Occurs Tree.isPreterminal trees label) :
    Occurs (fun node => !node.isLeaf) trees label := by
  obtain ⟨tree, member, path, node, found, tag, same⟩ := occurs
  obtain ⟨word, only⟩ := Tree.isPreterminal_iff.mp tag
  exact ⟨tree, member, path, node, found, by simp [Tree.isLeaf, only], same⟩

/-- What a first and a second round of interning leave behind. -/
theorem numberCategories_labels (trees : List Tree) (root : String) :
    ∃ tags others, (numberCategories (.empty root) trees).labels = tags ++ others ∧
      (tags ++ others).Nodup ∧
      (∀ label, label ∈ tags ↔ Occurs Tree.isPreterminal trees label) ∧
      ∀ label, label ∈ tags ++ others ↔ Occurs (fun node => !node.isLeaf) trees label := by
  have empty := Vocabulary.indexed_empty root
  obtain ⟨tags, tagged, once, holdsTags⟩ :=
    empty.internAll_labels List.nodup_nil (trees.flatMap Tree.tags)
  rw [show (Vocabulary.empty root).labels = [] from rfl, List.nil_append] at tagged once holdsTags
  obtain ⟨others, grown, distinct, holds⟩ :=
    (empty.internAll (trees.flatMap Tree.tags)).internAll_labels (tagged ▸ once)
      (trees.flatMap Tree.categories)
  rw [tagged] at grown distinct holds
  have mem_tags (label : String) : label ∈ tags ↔ Occurs Tree.isPreterminal trees label := by
    rw [holdsTags, ← mem_tags_iff, or_iff_right List.not_mem_nil]
  refine ⟨tags, others, grown, distinct, mem_tags, fun label => ?_⟩
  rw [holds, mem_categories_iff, mem_tags, or_iff_right_of_imp Occurs.category]

theorem registers_numberCategories (trees : List Tree) (root : String) (count : Nat) :
    Registers trees root count (numberCategories (.empty root) trees)
      (initialSubstates (numberCategories (.empty root) trees) count) := by
  obtain ⟨tags, others, grown, once, mem_tags, mem_labels⟩ := numberCategories_labels trees root
  have indexed := indexed_numberCategories (Vocabulary.indexed_empty root) trees
  have rooted : (numberCategories (.empty root) trees).rootLabel = root := by
    simp only [numberCategories, Vocabulary.rootLabel_internAll, Vocabulary.empty]
  generalize numberCategories (.empty root) trees = vocabulary at grown indexed rooted
  have id_iff (label : String) (id : Nat) :
      vocabulary.id? label = some id ↔ vocabulary.labels[id]? = some label :=
    indexed.id?_eq_some_iff (grown ▸ once)
  refine ⟨grown ▸ once, fun label => grown ▸ mem_labels label, id_iff, ?_, ?_, ?_⟩
  · intro tag other early late tagged untagged first second
    obtain ⟨i, found⟩ := List.mem_iff_getElem?.mp ((mem_tags tag).mpr tagged)
    have below : i < tags.length := (List.getElem?_eq_some_iff.mp found).1
    have again : vocabulary.id? tag = some i :=
      (id_iff tag i).mpr (by rw [grown, List.getElem?_append_left below, found])
    obtain rfl : early = i := Option.some.inj (first.symm.trans again)
    refine below.trans_le (Nat.le_of_not_lt fun inside => untagged ?_)
    rw [id_iff, grown, List.getElem?_append_left inside] at second
    exact (mem_tags other).mp (List.mem_of_getElem? second)
  · simp [initialSubstates]
  · intro label id known
    have found := (id_iff label id).mp known
    have below : id < vocabulary.size := (List.getElem?_eq_some_iff.mp found).1
    have root_iff : some id = vocabulary.root? ↔ label = root := by
      rw [Vocabulary.root?, rooted, eq_comm, id_iff, found, Option.some_inj]
    simp [initialSubstates, below, root_iff]

end Training

end LatentGrammar
