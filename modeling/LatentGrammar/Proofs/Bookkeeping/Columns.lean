import LatentGrammar.Proofs.Bookkeeping.Lexicons

/-! Column sums. As long as tokens are only added, a substate of a tag has as much of them as the
tag's words have of it. Tying rare words moves the counts of words between substates and leaves those
of the tag alone, so from then on the words only tell what the tag has over all its substates; a split
or a merge adds the columns up anew. -/

namespace LatentGrammar

variable {α γ : Type} [ExactScalar α] [Draws γ α] {whole : Prop} {substates : List Nat} {size : Nat}

theorem eq_columnSums_iff {tags : List α} {words : NameTable (List α)} (sized : HasSize tags size)
    (fits : words.Fits size) :
    tags = EmissionTables.columnSums size words ↔
      ∀ s, entry tags s = NameTable.total (entry · s) words := by
  have sums (s : Nat) := (additive_entry s).columnSums fits
  constructor
  · rintro rfl s
    exact sums s
  · intro same
    apply List.ext_getElem (sized.trans (length_columnSums size words).symm)
    intro s below below'
    have entries := (same s).trans (sums s).symm
    simpa [entry, below, below'] using entries

/-- A single substate has all that its tag has. -/
theorem eq_columnSums_of_single {tags : List α} {words : NameTable (List α)}
    (sized : HasSize tags 1) (fits : words.Fits 1)
    (sums : tags.sum = NameTable.total List.sum words) :
    tags = EmissionTables.columnSums 1 words := by
  have summed := additive_sum.columnSums fits
  have length := length_columnSums 1 words
  obtain ⟨count, rfl⟩ := List.length_eq_one_iff.mp sized
  obtain ⟨column, columns⟩ := List.length_eq_one_iff.mp length
  rw [columns, ← sums] at summed
  rw [columns]
  simpa using summed.symm

theorem getElem?_columnSums {tables : List (NameTable (List α))} {table : NameTable (List α)}
    {state : Nat} (found : substates[state]? = some size) (present : tables[state]? = some table) :
    ((substates.zip tables).map fun (size, table) => EmissionTables.columnSums size table)[state]? =
      some (EmissionTables.columnSums size table) := by
  rw [List.getElem?_map, zip_getElem? found present]
  rfl

theorem eq_map_columnSums {counts : List (List α)} {tables : List (NameTable (List α))}
    (columns : List.Forall₂ (fun tags words => ∀ s, entry tags s = NameTable.total (entry · s) words)
      counts tables)
    (sized : List.Forall₂ HasSize counts substates)
    (fits : List.Forall₂ NameTable.Fits tables substates) :
    counts = (substates.zip tables).map fun (size, words) =>
      EmissionTables.columnSums size words := by
  induction columns generalizing substates with
  | nil => rw [List.zip_nil_right, List.map_nil]
  | cons here _ ih =>
    cases sized with
    | cons headSized sized =>
      cases fits with
      | cons headFits fits =>
        rw [List.zip_cons_cons, List.map_cons, ← ih sized fits]
        exact congrArg (· :: _) ((eq_columnSums_iff headSized headFits).mpr here)

namespace EmissionTables

variable {tables : EmissionTables α}

/-- The counts of the tags are the column sums of those of their words. -/
def TagsSummed (tables : EmissionTables α) (substates : List Nat) : Prop :=
  tables.tagCounts = (substates.zip tables.wordCounts).map fun (size, words) => columnSums size words

theorem TagsSummed.column (summed : tables.TagsSummed substates) {state : Nat}
    {words : NameTable (List α)} (found : substates[state]? = some size)
    (foundWords : tables.wordCounts[state]? = some words) :
    tables.tagCounts[state]? = some (columnSums size words) :=
  (congrArg (·[state]?) summed).trans (getElem?_columnSums found foundWords)

end EmissionTables

namespace EmissionCounts

/-- Counts in a frame whose tags have what their words have, substate by substate. -/
structure ColumnsIn (counts : EmissionCounts α) (frame : LexiconFrame α) : Prop where
  inFrame : counts.InFrame frame
  columns : List.Forall₂
    (fun tags words => ∀ s, entry tags s = NameTable.total (entry · s) words)
    counts.tables.tagCounts counts.tables.wordCounts

variable {counts : EmissionCounts α} {frame : LexiconFrame α} {policy : UnseenPolicy α}

theorem add_columns (columnsIn : counts.ColumnsIn frame) {state : Nat}
    (found : frame.substates[state]? = some size) {weights : List α} (sized : HasSize weights size)
    (word : String) (position : Nat) :
    Delivers Any (·.ColumnsIn frame) (counts.add policy state word position weights) := by
  obtain ⟨inFrame, columns⟩ := columnsIn
  obtain ⟨words, foundWords, fits⟩ := exists_of_forall₂ inFrame.fits.wordCounts found
  obtain ⟨tags, foundTags, tagsSized⟩ := exists_of_forall₂ inFrame.fits.tagCounts found
  have added (s : Nat) : entry (Scalar.addInto tags weights) s =
      NameTable.total (entry · s) (EmissionTables.addNamed word weights words) := by
    rw [entry_addInto (sized.trans tagsSized.symm), (additive_entry s).total_addNamed fits word sized,
      relation_of_forall₂ columns foundTags foundWords s]
  have grown : Delivers Any (fun next => List.Forall₂
      (fun tags words => ∀ s, entry tags s = NameTable.total (entry · s) words)
      next.tables.tagCounts next.tables.wordCounts)
      (counts.add policy state word position weights) := by
    unfold add
    simp only [fetch_eq_ok_iff.mpr foundWords, fetch_eq_ok_iff.mpr foundTags, ok_bind]
    have set := forall₂_set_both columns state added
    refine Delivers.ite (fun _ => ?_) fun _ => set
    exact (delivers_any _).bind fun _ _ => (delivers_any _).bind fun _ _ => set
  apply (add_delivers inFrame found sized word position).mono_ok
  intro next success kept
  exact ⟨kept, grown.of_ok success⟩

theorem countScored_columns (columnsIn : counts.ColumnsIn frame) {tree : LatentTree α}
    (fits : tree.Fits frame.substates) :
    Delivers Any (·.ColumnsIn frame) (counts.countScored policy tree) := by
  refine countScored_keeps (delivers_any _) columnsIn ?_
  intro mass _ _ counts state word scores position leaf columnsIn
  have nodeFits := fits_of_leaf fits leaf
  have sized := LatentTree.length_posteriorIn nodeFits mass tree.inside.scale
  exact add_columns columnsIn nodeFits.substates_eq sized word position

theorem countUnscored_columns {reference : Option (Lexicon α)} (columnsIn : counts.ColumnsIn frame)
    {tree : LatentTree α} (fits : tree.Fits frame.substates)
    (like : ∀ lexicon, reference = some lexicon → lexicon.substates = frame.substates)
    (randomness : α) (stream : γ) :
    Delivers Any (·.1.ColumnsIn frame)
      (counts.countUnscored policy randomness reference tree stream) := by
  have answers (lexicon : Lexicon α) (same : reference = some lexicon) :
      lexicon.substates = frame.substates ∧ lexicon.Answers Any :=
    ⟨like lexicon same, lexicon.answers_any⟩
  have known (counts : EmissionCounts α) (columnsIn : counts.ColumnsIn frame) :
      counts.substates = frame.substates := congrArg (·.substates) columnsIn.inFrame.frame_eq
  refine countUnscored_keeps fits answers known columnsIn ?_ randomness stream
  intro counts state word scores position weights leaf columnsIn sized
  have found := (fits_of_leaf fits leaf).substates_eq
  exact add_columns columnsIn found (hasSize_proportions sized) word position

theorem columnsIn_of_unseen (inFrame : counts.InFrame frame)
    (zeros : ∀ tags ∈ counts.tables.tagCounts, ∀ s, entry tags s = 0)
    (empty : ∀ words ∈ counts.tables.wordCounts, words = []) : counts.ColumnsIn frame := by
  refine ⟨inFrame, forall₂_of_getElem? ?_ fun state tags words foundTags foundWords s => ?_⟩
  · exact inFrame.fits.tagCounts.length_eq.trans inFrame.fits.wordCounts.length_eq.symm
  · rw [empty words (List.mem_of_getElem? foundWords), zeros tags (List.mem_of_getElem? foundTags)]
    rfl

theorem empty_unseen (substates : List Nat) :
    Delivers Any (fun tables : EmissionTables α =>
        (∀ tags ∈ tables.tagCounts, ∀ s, entry tags s = 0) ∧ ∀ words ∈ tables.wordCounts, words = [])
      (EmissionTables.empty substates) := by
  have rows : Delivers Any (fun rows : List (List α) => ∀ tags ∈ rows, ∀ s, entry tags s = 0)
      (substates.mapM (fill · 0)) := by
    refine Delivers.mapM_forall fun size _ => ?_
    refine (delivers_fill_or_overflow fun _ => any_overflow).mono ?_
    rintro _ rfl s
    exact entry_replicate_zero size s
  refine rows.bind fun tagCounts zeros => ⟨zeros, fun words member => ?_⟩
  obtain ⟨_, -, rfl⟩ := List.mem_map.mp member
  rfl

/-- Counts in a frame that come about by counting trees, none of their words tied. -/
inductive Tallied : LexiconFrame α → EmissionCounts α → Prop where
  | start {substates : List Nat} {root : Nat} {settings : LexiconSettings α}
      {counts : EmissionCounts α}
      (success : EmissionCounts.start substates root settings = .ok counts) :
      Tallied counts.toLexiconFrame counts
  | after {lexicon : Lexicon α} {counts : EmissionCounts α}
      (success : EmissionCounts.after lexicon = .ok counts) :
      Tallied lexicon.toLexiconFrame counts
  | scored {frame : LexiconFrame α} {counts next : EmissionCounts α} {policy : UnseenPolicy α}
      {tree : LatentTree α} (tallied : Tallied frame counts) (fits : tree.Fits frame.substates)
      (success : counts.countScored policy tree = .ok next) : Tallied frame next
  | unscored {γ : Type} [Draws γ α] {frame : LexiconFrame α} {counts next : EmissionCounts α}
      {policy : UnseenPolicy α} {tree : LatentTree α} {randomness : α}
      {reference : Option (Lexicon α)} {stream rest : γ} (tallied : Tallied frame counts)
      (fits : tree.Fits frame.substates)
      (like : ∀ lexicon, reference = some lexicon → lexicon.substates = frame.substates)
      (success : counts.countUnscored policy randomness reference tree stream = .ok (next, rest)) :
      Tallied frame next

theorem Tallied.columnsIn (tallied : Tallied frame counts) : counts.ColumnsIn frame := by
  induction tallied with
  | start success =>
    have begun : Counted False _ _ := .start success
    have inFrame := begun.balancedIn.inFrame
    obtain ⟨_, -, success⟩ := bind_eq_ok_iff.mp success
    obtain ⟨_, made, success⟩ := bind_eq_ok_iff.mp success
    obtain rfl := Except.ok.inj success
    obtain ⟨zeros, empty⟩ := (empty_unseen _).of_ok made
    exact columnsIn_of_unseen inFrame zeros empty
  | after success =>
    have begun : Counted False _ _ := .after success
    have inFrame := begun.balancedIn.inFrame
    obtain ⟨_, made, success⟩ := bind_eq_ok_iff.mp success
    obtain rfl := Except.ok.inj success
    obtain ⟨zeros, empty⟩ := (empty_unseen _).of_ok made
    exact columnsIn_of_unseen inFrame zeros empty
  | scored _ fits success ih => exact (countScored_columns ih fits).of_ok success
  | unscored _ fits like success ih => exact (countUnscored_columns ih fits like _ _).of_ok success

theorem ColumnsIn.tagsSummed (columnsIn : counts.ColumnsIn frame) :
    counts.tables.TagsSummed frame.substates :=
  eq_map_columnSums columnsIn.columns columnsIn.inFrame.fits.tagCounts
    columnsIn.inFrame.fits.wordCounts

end EmissionCounts

namespace Lexicon

variable (lexicon : Lexicon α)

/-- Whatever the counts were before, a split sums up columns. -/
theorem split_tagsSummed (randomness : α) (counts : List Nat) (unbounded : Bool) (stream : γ) :
    Delivers Any (fun next => next.1.tables.TagsSummed next.1.substates)
      (lexicon.split randomness counts unbounded stream) := by
  refine (delivers_any _).bind fun factors _ => (delivers_any _).bind fun substates _ => ?_
  refine (delivers_any _).bind fun _ _ => (delivers_any _).bind fun words _ => ?_
  exact (delivers_any _).bind fun signatures _ => rfl

omit [Draws γ α] in
theorem merge_tagsSummed (mappings : List (List Nat)) :
    Delivers Any (fun next => next.tables.TagsSummed next.substates) (lexicon.merge mappings) := by
  refine (delivers_any _).bind fun substates _ => (delivers_any _).bind fun _ _ => ?_
  refine (delivers_any _).bind fun _ _ => (delivers_any _).bind fun _ _ => ?_
  refine (delivers_any _).bind fun words _ => (delivers_any _).bind fun signatures _ => ?_
  exact (delivers_any _).bind fun ancestry _ => rfl

end Lexicon

end LatentGrammar
