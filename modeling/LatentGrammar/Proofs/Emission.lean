import LatentGrammar.Proofs.Delivery
import LatentGrammar.Lexicon.Basic

namespace LatentGrammar

variable {α : Type}

theorem exists_of_forall₂ {β γ : Type} {relation : β → γ → Prop} {firsts : List β}
    {seconds : List γ} (all : List.Forall₂ relation firsts seconds) {index : Nat} {second : γ}
    (found : seconds[index]? = some second) :
    ∃ first, firsts[index]? = some first ∧ relation first second := by
  induction all generalizing index with
  | nil => simp at found
  | cons holds _ ih =>
    cases index with
    | zero =>
      obtain rfl : _ = second := by simpa using found
      exact ⟨_, rfl, holds⟩
    | succ index => exact ih (by simpa using found)

/-- Every vector of the table has the given number of entries. -/
def NameTable.Fits (table : NameTable (List α)) (size : Nat) : Prop :=
  ∀ entry ∈ table, entry.2.length = size

theorem NameTable.forall_get? {β : Type} {property : β → Prop} {table : NameTable β}
    (all : ∀ named ∈ table, property named.2) {name : String} {value : β}
    (found : table.get? name = some value) : property value := by
  obtain ⟨before, after, split, -⟩ := List.lookup_eq_some_iff.mp found
  exact all (name, value) (by simp [split])

theorem NameTable.Fits.get? {table : NameTable (List α)} {size : Nat} (fits : table.Fits size)
    {name : String} {counts : List α} (found : table.get? name = some counts) :
    counts.length = size :=
  @forall_get? (List α) (·.length = size) table fits name counts found

/-- The vector has the given number of entries. -/
def HasSize (counts : List α) (size : Nat) : Prop := counts.length = size

/-- The tables cover every category, with an entry for each of its substates. -/
structure EmissionTables.Fits (tables : EmissionTables α) (substates : List Nat) : Prop where
  tagCounts : List.Forall₂ HasSize tables.tagCounts substates
  wordCounts : List.Forall₂ NameTable.Fits tables.wordCounts substates
  unseenTagCounts : List.Forall₂ HasSize tables.unseenTagCounts substates
  unseenSignatureCounts : List.Forall₂ NameTable.Fits tables.unseenSignatureCounts substates

/-- The ancestry has an entry for each substate. -/
def Ancestry.Fits (ancestry : Ancestry) (size : Nat) : Prop := ancestry.size = size

/-- The lexicon has tables and ancestries for all of its substates. -/
structure Lexicon.Consistent (lexicon : Lexicon α) : Prop where
  ancestry : List.Forall₂ Ancestry.Fits lexicon.ancestry lexicon.substates
  tables : lexicon.tables.Fits lexicon.substates

variable [Scalar α] {allowed : Fault → Prop}

@[simp] theorem Smoothing.length_smooth (smoothing : Smoothing α) (ancestry : Ancestry)
    (values : List α) : (smoothing.smooth ancestry values).length = values.length := by
  unfold smooth
  cases smoothing with
  | none => rfl
  | acrossSiblings strength =>
    simp only
    split
    · rename_i same
      have sizes : ancestry.parents.length = values.length := by simpa [Ancestry.size] using same
      simp [sizes]
    · rfl

theorem delivers_zero_rows (substates : List Nat) (overflow : allowed .overflow) :
    Delivers allowed (fun rows : List (List α) => List.Forall₂ HasSize rows substates)
      (substates.mapM (fill · 0)) := by
  have each : Delivers allowed (List.Forall₂ (fun size row => HasSize row size) substates)
      (substates.mapM (fill · (0 : α))) := by
    apply Delivers.mapM
    intro size _
    apply (delivers_fill_or_overflow fun _ => overflow).mono
    rintro row rfl
    exact List.length_replicate
  apply each.mono
  intro rows sized
  exact sized.flip

namespace Lexicon

/-- Every word has as many scores as its category has substates, unless the lexicon faults. -/
def Answers (allowed : Fault → Prop) (lexicon : Lexicon α) : Prop :=
  ∀ word state position size, lexicon.substates[state]? = some size → size < Word.tableLimit →
    Delivers allowed (HasSize · size) (lexicon.score word state position)

theorem delivers_countOf {counts : Option (List α)} {size s : Nat}
    (fits : ∀ entries, counts = some entries → entries.length = size) (below : s < size) :
    Delivers allowed (fun _ => True) (countOf counts s) := by
  cases counts with
  | none => trivial
  | some entries => exact delivers_fetch_below (fits entries rfl ▸ below)

/-- The scores of a word before they are smoothed and pruned. -/
def rawScores (lexicon : Lexicon α) (word : String) (state position size : Nat) :
    Except Fault (List α) :=
  match lexicon.settings.kind with
  | .sophisticated => lexicon.sophisticatedScores word state position size
  | .simple => lexicon.simpleScores word state position size

theorem score_eq (lexicon : Lexicon α) (word : String) (state position : Nat) :
    lexicon.score word state position = (do
      let scores ← lexicon.rawScores word state position (← fetch lexicon.substates state)
      let smoothed := lexicon.smoothing.smooth (← fetch lexicon.ancestry state) scores
      return smoothed.map fun score => if score < lexicon.settings.threshold then 0 else score) := by
  unfold score rawScores
  cases lexicon.settings.kind <;> rfl

theorem answers_of_raw {lexicon : Lexicon α}
    (ancestry : ∀ state size, lexicon.substates[state]? = some size →
      Delivers allowed (fun _ => True) (fetch lexicon.ancestry state))
    (raw : ∀ word state position size, lexicon.substates[state]? = some size →
      size < Word.tableLimit →
        Delivers allowed (HasSize · size) (lexicon.rawScores word state position size)) :
    lexicon.Answers allowed := by
  intro word state position size found room
  rw [score_eq, fetch_eq_ok_iff.mpr found]
  apply (raw word state position size found room).bind
  intro scores sized
  apply (ancestry state size found).bind
  intro _ _
  simpa [HasSize] using sized

theorem delivers_fill_zeros {size : Nat} (room : size < Word.tableLimit) :
    Delivers allowed (fun table : List α => HasSize table size) (fill size 0) :=
  (delivers_fill room).mono fun table same => by simp [same, HasSize]

/-- Whatever can be looked up, a word has a score for each substate. -/
theorem answers_any (lexicon : Lexicon α) : lexicon.Answers Any := by
  apply answers_of_raw (fun _ _ _ => delivers_any _)
  intro word state position size _ room
  unfold rawScores
  cases lexicon.settings.kind with
  | sophisticated =>
    unfold sophisticatedScores
    apply Delivers.ite (fun _ => delivers_fill_zeros room)
    intro _
    refine (delivers_any _).bind fun _ _ => (delivers_any _).bind fun _ _ => ?_
    exact Delivers.length_tabulate fun _ _ => delivers_any _
  | simple =>
    unfold simpleScores
    apply (delivers_any _).bind
    intro _ _
    exact Delivers.length_tabulate fun _ _ => delivers_any _

theorem Consistent.answers {lexicon : Lexicon α} (consistent : lexicon.Consistent) :
    lexicon.Answers allowed := by
  have tables := consistent.tables
  refine answers_of_raw (fun state size found => ?_) fun word state position size found room => ?_
  · obtain ⟨ancestry, present, -⟩ := exists_of_forall₂ consistent.ancestry found
    exact delivers_fetch ⟨ancestry, present, trivial⟩
  · obtain ⟨words, foundWords, wordsFit⟩ := exists_of_forall₂ tables.wordCounts found
    obtain ⟨tags, foundTags, tagsFit⟩ := exists_of_forall₂ tables.tagCounts found
    obtain ⟨signs, foundSigns, signsFit⟩ := exists_of_forall₂ tables.unseenSignatureCounts found
    obtain ⟨unseen, foundUnseen, unseenFit⟩ := exists_of_forall₂ tables.unseenTagCounts found
    have entry {counts : List α} (fits : HasSize counts size) {s : Nat} (below : s < size) :
        Delivers allowed (fun _ => True) (fetch counts s) :=
      delivers_fetch_below (fits.symm ▸ below)
    have counted {names : NameTable (List α)} (fits : names.Fits size) (name : String) {s : Nat}
        (below : s < size) : Delivers allowed (fun _ => True) (countOf (names.get? name) s) :=
      delivers_countOf (fun entries present => fits.get? present) below
    unfold rawScores
    cases lexicon.settings.kind with
    | sophisticated =>
      unfold sophisticatedScores
      apply Delivers.ite (fun _ => delivers_fill_zeros room)
      intro _
      simp only [fetch_eq_ok_iff.mpr foundWords, fetch_eq_ok_iff.mpr foundSigns,
        fetch_eq_ok_iff.mpr foundTags, fetch_eq_ok_iff.mpr foundUnseen]
      apply Delivers.length_tabulate
      intro s below
      apply (entry tagsFit below).bind
      intro _ _
      apply Delivers.ite
      · intro _
        exact trivial
      intro _
      refine Delivers.ite (fun _ => ?_) fun _ => ?_
      · refine (entry unseenFit below).bind fun _ _ => (counted signsFit _ below).bind fun _ _ => ?_
        exact (counted wordsFit _ below).bind fun _ _ => trivial
      · apply (counted signsFit _ below).bind
        intro _ _
        exact (counted wordsFit _ below).bind fun _ _ => trivial
    | simple =>
      unfold simpleScores
      simp only [fetch_eq_ok_iff.mpr foundWords, fetch_eq_ok_iff.mpr foundTags]
      apply Delivers.length_tabulate
      intro s below
      apply (entry tagsFit below).bind
      intro _ _
      apply Delivers.ite
      · intro _
        exact trivial
      intro _
      exact (counted wordsFit _ below).bind fun _ _ => trivial

end Lexicon

end LatentGrammar
