import LatentGrammar.Proofs.Bookkeeping.Lexicons
import LatentGrammar.Proofs.Saving.Checkpoints
import LatentGrammar.Proofs.Seeds.Draws

/-! The order in which the names of a lexicon are visited by a split. All noise comes from one stream,
so the noise on the counts of a name depends on how much was drawn for the names before it. What does
not depend on the order is told here, and that the counts themselves do. -/

namespace LatentGrammar

variable {β : Type}

/-- The same entries under distinct names, in whatever order. -/
structure NameTable.Reordered (one two : NameTable β) : Prop where
  perm : one.Perm two
  distinct : one.Distinct

namespace NameTable

variable {one two : NameTable β}

theorem Distinct.get?_eq_some_iff {table : NameTable β} (distinct : table.Distinct) {name : String}
    {value : β} : table.get? name = some value ↔ (name, value) ∈ table := by
  induction table with
  | nil => simp [get?]
  | cons entry rest ih =>
    obtain ⟨other, stored⟩ := entry
    obtain ⟨new, later⟩ := List.nodup_cons.mp distinct
    rw [get?, List.lookup_cons, List.mem_cons, Prod.mk.injEq]
    by_cases same : name = other
    · subst same
      have absent : (name, value) ∉ rest := fun member =>
        new (List.mem_map.mpr ⟨(name, value), member, rfl⟩)
      simp [absent, eq_comm]
    · rw [beq_false_of_ne same]
      simpa [same, get?] using ih later

theorem Reordered.symm (reordered : one.Reordered two) : two.Reordered one :=
  ⟨reordered.perm.symm, (reordered.perm.map Prod.fst).nodup_iff.mp reordered.distinct⟩

theorem Reordered.get?_eq (reordered : one.Reordered two) (name : String) :
    one.get? name = two.get? name := by
  apply Option.ext
  intro value
  rw [reordered.distinct.get?_eq_some_iff, reordered.symm.distinct.get?_eq_some_iff,
    reordered.perm.mem_iff]

theorem Reordered.mapValues {γ : Type} (reordered : one.Reordered two) (f : β → γ) :
    Reordered (one.map fun (name, value) => (name, f value))
      (two.map fun (name, value) => (name, f value)) := by
  refine ⟨reordered.perm.map _, ?_⟩
  rw [Distinct, List.map_map]
  exact reordered.distinct

end NameTable

variable {α γ : Type}

/-- Statistics whose tables have the same entries in whatever order. -/
structure EmissionTables.Reordered (one two : EmissionTables α) : Prop where
  tagCounts_eq : one.tagCounts = two.tagCounts
  words : List.Forall₂ NameTable.Reordered one.wordCounts two.wordCounts
  wordTotals : NameTable.Reordered one.wordTotals two.wordTotals
  totalTokens_eq : one.totalTokens = two.totalTokens
  unseenTagCounts_eq : one.unseenTagCounts = two.unseenTagCounts
  signatures : List.Forall₂ NameTable.Reordered one.unseenSignatureCounts two.unseenSignatureCounts
  signatureTotals : NameTable.Reordered one.unseenSignatureTotals two.unseenSignatureTotals
  unseenTotal_eq : one.unseenTotal = two.unseenTotal

/-- The same lexicon, its names in whatever order. -/
structure Lexicon.Reordered (one two : Lexicon α) : Prop where
  frame_eq : one.toLexiconFrame = two.toLexiconFrame
  tables : one.tables.Reordered two.tables

section Draws

variable [Draws γ α]

/-- What is left of a stream after some draws. -/
def laterStream : Nat → γ → γ
  | 0, stream => stream
  | count + 1, stream => laterStream count (Draws.draw stream).2

theorem laterStream_add (first second : Nat) (stream : γ) :
    laterStream (first + second) stream = laterStream second (laterStream first stream) := by
  induction first generalizing stream with
  | zero => rw [Nat.zero_add]; rfl
  | succ first ih =>
    rw [Nat.succ_add]
    exact ih _

/-- The number of counts in a table. -/
def NameTable.countTotal (table : NameTable (List α)) : Nat := (table.map (·.2.length)).sum

/-- The number of counts that are visited before those of a name. -/
def NameTable.countsBefore (name : String) : NameTable (List α) → Nat
  | [] => 0
  | (other, counts) :: rest =>
    if name == other then 0 else counts.length + NameTable.countsBefore name rest

theorem NameTable.Reordered.countTotal_eq {one two : NameTable (List α)}
    (reordered : one.Reordered two) : one.countTotal = two.countTotal :=
  (reordered.perm.map _).sum_eq

variable [Scalar α] (randomness : α)

theorem perturbAll_stream (values : List α) (stream : γ) :
    (perturbAll randomness values stream).2 = laterStream values.length stream := by
  induction values generalizing stream with
  | nil => rfl
  | cons value rest ih => exact ih _

theorem splitNames_stream (factor : Nat) (table : NameTable (List α)) (stream : γ) :
    (splitNames factor randomness table stream).2 =
      laterStream (table.countTotal * factor) stream := by
  induction table generalizing stream with
  | nil => simp [splitNames, NameTable.countTotal, laterStream]
  | cons entry rest ih =>
    obtain ⟨name, counts⟩ := entry
    simp only [splitNames, ih, perturbAll_stream, length_shareCounts, ← laterStream_add]
    rw [← Nat.add_mul]
    rfl

/-- The counts of a name get the noise that is drawn after that of the names visited before it. -/
theorem splitNames_get? (factor : Nat) (table : NameTable (List α)) (stream : γ) (name : String) :
    NameTable.get? (splitNames factor randomness table stream).1 name =
      (table.get? name).map fun counts =>
        (perturbAll randomness (shareCounts factor counts)
          (laterStream (table.countsBefore name * factor) stream)).1 := by
  induction table generalizing stream with
  | nil => rfl
  | cons entry rest ih =>
    obtain ⟨other, counts⟩ := entry
    simp only [NameTable.get?, splitNames, NameTable.countsBefore, List.lookup_cons] at ih ⊢
    by_cases same : name == other
    · simp [same, laterStream]
    · simp only [same, Bool.false_eq_true, if_false, ih, perturbAll_stream, length_shareCounts,
        ← laterStream_add, Nat.add_mul]

/-- The number of draws that tables take, each with its factor. -/
def drawCount (entries : List (Nat × NameTable (List α))) : Nat :=
  (entries.map fun (factor, table) => table.countTotal * factor).sum

theorem splitTables_stream (entries : List (Nat × NameTable (List α))) (stream : γ) :
    (splitTables randomness entries stream).2 = laterStream (drawCount entries) stream := by
  induction entries generalizing stream with
  | nil => rfl
  | cons entry rest ih =>
    obtain ⟨factor, table⟩ := entry
    simp only [splitTables, ih, splitNames_stream, ← laterStream_add]
    rw [drawCount, drawCount, List.map_cons, List.sum_cons]

theorem splitTables_getElem? (entries : List (Nat × NameTable (List α))) (stream : γ)
    (state : Nat) :
    (splitTables randomness entries stream).1[state]? = entries[state]?.map fun (factor, table) =>
      (splitNames factor randomness table
        (laterStream (drawCount (entries.take state)) stream)).1 := by
  induction entries generalizing stream state with
  | nil => rfl
  | cons entry rest ih =>
    obtain ⟨factor, table⟩ := entry
    cases state with
    | zero => rfl
    | succ state =>
      simp only [splitTables, List.getElem?_cons_succ, ih, splitNames_stream, ← laterStream_add]
      rfl

variable {tables tables' : List (NameTable (List α))}

omit [Scalar α] in
theorem drawCount_reordered (all : List.Forall₂ NameTable.Reordered tables tables')
    (factors : List Nat) : drawCount (factors.zip tables) = drawCount (factors.zip tables') := by
  induction all generalizing factors with
  | nil => rfl
  | cons here _ ih =>
    cases factors with
    | nil => rfl
    | cons factor factors =>
      simp only [drawCount, List.zip_cons_cons, List.map_cons, List.sum_cons,
        here.countTotal_eq] at ih ⊢
      rw [ih]

/-- What splits of the same tables in two orders come to: the same names in every category, and the
same counts for a name that is visited after as many counts in the one order as in the other. -/
def SplitAlike (old old' new new' : List (NameTable (List α))) : Prop :=
  ∀ (state : Nat) (table table' split split' : NameTable (List α)), old[state]? = some table →
    old'[state]? = some table' → new[state]? = some split → new'[state]? = some split' →
      (split.map Prod.fst).Perm (split'.map Prod.fst) ∧
        ∀ name, table.countsBefore name = table'.countsBefore name →
          split.get? name = split'.get? name

end Draws

/-- Tables made to fit are the old ones, and new ones beyond. -/
def Fitted (fitted old : List (NameTable (List α))) : Prop :=
  ∀ (state : Nat) (kept table : NameTable (List α)), fitted[state]? = some kept →
    old[state]? = some table → kept = table

theorem fitted_take (size : Nat) (tables : List (NameTable (List α))) :
    Fitted (tables.take size ++ List.replicate (size - tables.length) []) tables := by
  intro state kept table found before
  obtain ⟨inside, -⟩ := List.getElem?_eq_some_iff.mp before
  by_cases below : state < size
  · rw [List.getElem?_append_left (by rw [List.length_take]; omega),
      List.getElem?_take_of_lt below] at found
    exact Option.some.inj (found.symm.trans before)
  · have end_ : (tables.take size ++ List.replicate (size - tables.length) []).length ≤ state := by
      rw [List.length_append, List.length_take, List.length_replicate]
      omega
    rw [List.getElem?_eq_none end_] at found
    cases found

theorem isEmpty_reordered {one two : NameTable β} (reordered : one.Reordered two) :
    one.isEmpty = two.isEmpty := by
  cases one with
  | nil => rw [reordered.perm.nil_eq]
  | cons entry rest =>
    cases two with
    | nil => exact absurd reordered.perm.eq_nil (List.cons_ne_nil _ _)
    | cons => rfl

theorem fitTables_reordered {tables tables' : List (NameTable (List α))}
    (all : List.Forall₂ NameTable.Reordered tables tables') (size : Nat) :
    Agree (fun fitted fitted' => List.Forall₂ NameTable.Reordered fitted fitted' ∧
        Fitted fitted tables ∧ Fitted fitted' tables')
      (fitTables size tables) (fitTables size tables') := by
  have empty {rest rest' : List (NameTable (List α))}
      (all : List.Forall₂ NameTable.Reordered rest rest') :
      rest.all List.isEmpty = rest'.all List.isEmpty := by
    induction all with
    | nil => rfl
    | cons here _ ih => rw [List.all_cons, List.all_cons, isEmpty_reordered here, ih]
  unfold fitTables
  rw [empty (List.forall₂_drop size all)]
  split
  · refine .ok ⟨List.rel_append (List.forall₂_take size all) ?_, fitted_take size tables,
      fitted_take size tables'⟩
    rw [all.length_eq]
    refine List.forall₂_same.mpr fun table member => ?_
    obtain rfl := List.eq_of_mem_replicate member
    exact ⟨.refl _, List.nodup_nil⟩
  · exact .error _

variable [ExactScalar α] [Draws γ α]

theorem splitTables_alike {old old' tables tables' : List (NameTable (List α))}
    (all : List.Forall₂ NameTable.Reordered tables tables') (fitted : Fitted tables old)
    (fitted' : Fitted tables' old') (factors : List Nat) (randomness : α) (stream : γ) :
    SplitAlike old old' (splitTables randomness (factors.zip tables) stream).1
      (splitTables randomness (factors.zip tables') stream).1 := by
  intro state table table' split split' found found' done done'
  rw [splitTables_getElem?] at done done'
  obtain ⟨⟨factor, kept⟩, entry, rfl⟩ := Option.map_eq_some_iff.mp done
  obtain ⟨⟨factor', kept'⟩, entry', rfl⟩ := Option.map_eq_some_iff.mp done'
  obtain ⟨foundFactor, foundKept⟩ := List.getElem?_zip_eq_some.mp entry
  obtain ⟨foundFactor', foundKept'⟩ := List.getElem?_zip_eq_some.mp entry'
  obtain rfl : factor = factor' := Option.some.inj (foundFactor.symm.trans foundFactor')
  obtain rfl : kept = table := fitted state kept table foundKept found
  obtain rfl : kept' = table' := fitted' state kept' table' foundKept' found'
  have reordered : NameTable.Reordered kept kept' := relation_of_forall₂ all foundKept foundKept'
  -- The tables of the categories before this one take as many draws in both orders.
  have drawn : drawCount ((factors.zip tables).take state) =
      drawCount ((factors.zip tables').take state) := by
    simp only [List.zip_eq_zipWith, List.take_zipWith]
    simp only [← List.zip_eq_zipWith]
    exact drawCount_reordered (List.forall₂_take state all) _
  dsimp only
  rw [splitNames_names, splitNames_names, drawn]
  refine ⟨reordered.perm.map _, fun name same => ?_⟩
  rw [splitNames_get?, splitNames_get?, reordered.get?_eq, same]

theorem splitTables_reordered {tables tables' : List (NameTable (List α))}
    (all : List.Forall₂ NameTable.Reordered tables tables') (factors : List Nat) (stream : γ) :
    List.Forall₂ NameTable.Reordered (splitTables (0 : α) (factors.zip tables) stream).1
      (splitTables (0 : α) (factors.zip tables') stream).1 := by
  rw [splitTables_zero, splitTables_zero]
  induction all generalizing factors with
  | nil => simp
  | cons here _ ih =>
    cases factors with
    | nil => exact .nil
    | cons factor factors => exact .cons (here.mapValues (shareCounts factor)) (ih factors)

omit [Draws γ α] in
theorem addInto_right_comm (totals one two : List α) :
    Scalar.addInto (Scalar.addInto totals one) two =
      Scalar.addInto (Scalar.addInto totals two) one := by
  induction totals generalizing one two with
  | nil => rfl
  | cons total totals ih =>
    cases one with
    | nil => cases two <;> rfl
    | cons value one =>
      cases two with
      | nil => rfl
      | cons other two =>
        simp only [Scalar.addInto, ih one two]
        exact congrArg (· :: _) (add_right_comm total value other)

omit [Draws γ α] in
theorem columnSums_reordered {one two : NameTable (List α)} (reordered : one.Reordered two)
    (size : Nat) : EmissionTables.columnSums size one = EmissionTables.columnSums size two :=
  reordered.perm.foldl_eq' (fun one _ two _ totals => addInto_right_comm totals one.2 two.2) _

omit [Draws γ α] in
/-- Without noise, the counts are shares of the old ones in both orders. -/
theorem retable_reordered {one two : EmissionTables α} (reordered : one.Reordered two)
    {words words' signatures signatures' : List (NameTable (List α))} (substates : List Nat)
    (sameWords : List.Forall₂ NameTable.Reordered words words')
    (sameSignatures : List.Forall₂ NameTable.Reordered signatures signatures') :
    (one.retable substates words signatures).Reordered
      (two.retable substates words' signatures') := by
  have sums {tables tables' : List (NameTable (List α))}
      (all : List.Forall₂ NameTable.Reordered tables tables') :
      ((substates.zip tables).map fun (size, words) => EmissionTables.columnSums size words) =
        (substates.zip tables').map fun (size, words) => EmissionTables.columnSums size words := by
    induction all generalizing substates with
    | nil => rfl
    | cons here _ ih =>
      cases substates with
      | nil => rfl
      | cons size substates =>
        simp only [List.zip_cons_cons, List.map_cons, columnSums_reordered here, ih]
  exact {
    tagCounts_eq := sums sameWords
    words := sameWords
    wordTotals := reordered.wordTotals
    totalTokens_eq := reordered.totalTokens_eq
    unseenTagCounts_eq := sums sameSignatures
    signatures := sameSignatures
    signatureTotals := reordered.signatureTotals
    unseenTotal_eq := reordered.unseenTotal_eq }

/-- What a split owes to the order in which names are visited, and what it does not. Whether a
lexicon can be split, into which substates and under which names, and what is left of the stream
never depends on the order. Neither do the counts of a name that is visited after as many counts in
the one order as in the other; and without noise, no counts do. -/
theorem Lexicon.split_reordered {one two : Lexicon α} (reordered : one.Reordered two)
    (randomness : α) (counts : List Nat) (unbounded : Bool) (stream : γ) :
    Agree (fun split split' : Lexicon α × γ =>
        split.2 = split'.2 ∧ split.1.toLexiconFrame = split'.1.toLexiconFrame ∧
        SplitAlike one.tables.wordCounts two.tables.wordCounts
          split.1.tables.wordCounts split'.1.tables.wordCounts ∧
        SplitAlike one.tables.unseenSignatureCounts two.tables.unseenSignatureCounts
          split.1.tables.unseenSignatureCounts split'.1.tables.unseenSignatureCounts ∧
        (randomness = 0 → split.1.Reordered split'.1))
      (one.split randomness counts unbounded stream)
      (two.split randomness counts unbounded stream) := by
  obtain ⟨frame, tables⟩ := reordered
  obtain ⟨frame', old⟩ := one
  obtain ⟨_, old'⟩ := two
  obtain rfl : frame' = _ := frame
  refine Agree.bind_same fun factors => Agree.bind_same fun substates => Agree.bind_same fun _ => ?_
  refine (fitTables_reordered tables.words substates.length).bind
    fun words words' ⟨sameWords, fitted, fitted'⟩ => ?_
  refine (fitTables_reordered tables.signatures substates.length).bind
    fun signatures signatures' ⟨sameSignatures, fittedSigns, fittedSigns'⟩ => ?_
  have between : (splitTables randomness (factors.zip words) stream).2 =
      (splitTables randomness (factors.zip words') stream).2 := by
    rw [splitTables_stream, splitTables_stream, drawCount_reordered sameWords]
  refine .ok ⟨?_, rfl, ?_, ?_, fun noiseless => ⟨rfl, ?_⟩⟩
  · dsimp only
    rw [between, splitTables_stream, splitTables_stream _ (factors.zip signatures'),
      drawCount_reordered sameSignatures]
  · exact splitTables_alike sameWords fitted fitted' factors randomness stream
  · dsimp only [EmissionTables.retable]
    rw [between]
    exact splitTables_alike sameSignatures fittedSigns fittedSigns' factors randomness _
  · subst noiseless
    dsimp only
    rw [between]
    exact retable_reordered tables substates (splitTables_reordered sameWords factors stream)
      (splitTables_reordered sameSignatures factors _)

/-- The sample lexicon, its words visited the other way round. -/
def fellFirst : Lexicon Rat :=
  { sampleModel.lexicon with
    tables := { sampleModel.lexicon.tables with
      wordCounts := [[], [("fell", [0, 3]), ("rain", [2, 1])]] } }

theorem fellFirst_reordered : sampleModel.lexicon.Reordered fellFirst where
  frame_eq := rfl
  tables :=
    have distinct : ["rain", "fell"].Nodup := by decide
    { tagCounts_eq := rfl
      words := .cons ⟨.refl _, List.nodup_nil⟩ (.cons ⟨.swap .., distinct⟩ .nil)
      wordTotals := ⟨.refl _, distinct⟩
      totalTokens_eq := rfl
      unseenTagCounts_eq := rfl
      signatures := .cons ⟨.refl _, List.nodup_nil⟩ (.cons ⟨.refl _, List.nodup_nil⟩ .nil)
      signatureTotals := ⟨.refl _, List.nodup_nil⟩
      unseenTotal_eq := rfl }

/-- Without noise the split lexicons are the same but for the order of their names. -/
theorem fellFirst_split_quiet :
    sampleModel.lexicon.Reordered fellFirst ∧
      ∃ split split' : Lexicon Rat × Nat, sampleModel.lexicon.split 0 [1, 4] false 0 = .ok split ∧
        fellFirst.split 0 [1, 4] false 0 = .ok split' ∧ split.1.Reordered split'.1 := by
  have agree := Lexicon.split_reordered fellFirst_reordered 0 [1, 4] false (0 : Nat)
  refine ⟨fellFirst_reordered, ?_⟩
  have succeeds : (sampleModel.lexicon.split (0 : Rat) [1, 4] false (0 : Nat)).isOk = true := by
    decide +kernel
  generalize sampleModel.lexicon.split (0 : Rat) [1, 4] false (0 : Nat) = one at agree succeeds
  generalize fellFirst.split (0 : Rat) [1, 4] false (0 : Nat) = two at agree
  cases agree with
  | error fault => cases succeeds
  | ok related => exact ⟨_, _, rfl, rfl, related.2.2.2.2 rfl⟩

/-- With noise they are not: the two visits give a word different counts. -/
theorem fellFirst_split_noisy :
    sampleModel.lexicon.Reordered fellFirst ∧
      (sampleModel.lexicon.split (1 : Rat) [1, 4] false (0 : Nat)).toOption.map
          (fun split => split.1.tables.wordCounts.map (NameTable.get? · "rain")) =
        some [none, some [101 / 100, 1, 299 / 600, 199 / 400]] ∧
      (fellFirst.split (1 : Rat) [1, 4] false (0 : Nat)).toOption.map
          (fun split => split.1.tables.wordCounts.map (NameTable.get? · "rain")) ≠
        some [none, some [101 / 100, 1, 299 / 600, 199 / 400]] :=
  ⟨fellFirst_reordered, by decide +kernel, by decide +kernel⟩

end LatentGrammar
