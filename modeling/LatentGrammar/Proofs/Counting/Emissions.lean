import LatentGrammar.Proofs.Dimensions
import LatentGrammar.Proofs.Emission
import LatentGrammar.Lexicon.Count

namespace LatentGrammar

variable {α : Type} [Scalar α] {allowed : Fault → Prop} {size : Nat}

section Related

variable {β γ δ : Type} {relation : β → γ → Prop} {firsts : List β} {seconds : List γ}

theorem forall₂_set (all : List.Forall₂ relation firsts seconds) {index : Nat} {first : β}
    {second : γ} (found : seconds[index]? = some second) (holds : relation first second) :
    List.Forall₂ relation (firsts.set index first) seconds := by
  induction all generalizing index with
  | nil => simp at found
  | cons here rest ih =>
    cases index with
    | zero =>
      obtain rfl : _ = second := by simpa using found
      exact .cons holds rest
    | succ index => exact .cons here (ih (by simpa using found))

theorem forall₂_set_both (all : List.Forall₂ relation firsts seconds) {first : β} {second : γ}
    (index : Nat) (holds : relation first second) :
    List.Forall₂ relation (firsts.set index first) (seconds.set index second) := by
  induction all generalizing index with
  | nil => exact .nil
  | cons here rest ih =>
    cases index with
    | zero => exact .cons holds rest
    | succ index => exact .cons here (ih index)

theorem forall₂_of_getElem? (length : firsts.length = seconds.length)
    (each : ∀ (index : Nat) first second, firsts[index]? = some first →
      seconds[index]? = some second → relation first second) :
    List.Forall₂ relation firsts seconds := by
  refine List.forall₂_iff_get.mpr ⟨length, fun index first second => ?_⟩
  exact each index _ _ (List.getElem?_eq_getElem first) (List.getElem?_eq_getElem second)

theorem relation_of_forall₂ (all : List.Forall₂ relation firsts seconds) {index : Nat} {first : β}
    {second : γ} (found : firsts[index]? = some first) (partner : seconds[index]? = some second) :
    relation first second := by
  obtain ⟨same, again, holds⟩ := exists_of_forall₂ all partner
  cases found.symm.trans again
  exact holds

theorem exists_mem_of_forall₂ (all : List.Forall₂ relation firsts seconds) {first : β}
    (member : first ∈ firsts) : ∃ second ∈ seconds, relation first second := by
  induction all with
  | nil => cases member
  | cons holds _ ih =>
    rcases List.mem_cons.mp member with rfl | later
    · exact ⟨_, List.mem_cons_self, holds⟩
    · obtain ⟨second, present, holds⟩ := ih later
      exact ⟨second, List.mem_cons_of_mem _ present, holds⟩

theorem forall₂_compose {other : γ → δ → Prop} {result : β → δ → Prop} {thirds : List δ}
    (all : List.Forall₂ relation firsts seconds) (others : List.Forall₂ other seconds thirds)
    (compose : ∀ first second third, relation first second → other second third →
      result first third) : List.Forall₂ result firsts thirds := by
  induction all generalizing thirds with
  | nil =>
    cases others
    exact .nil
  | cons here _ ih =>
    cases others with
    | cons there later => exact .cons (compose _ _ _ here there) (ih later)

end Related

@[simp] theorem Scalar.length_addInto (totals values : List α) :
    (Scalar.addInto totals values).length = totals.length := by
  induction totals generalizing values with
  | nil => rfl
  | cons total totals ih =>
    cases values with
    | nil => rfl
    | cons value values => simp [Scalar.addInto, ih]

@[simp] theorem length_perturbAll {γ : Type} [Draws γ α] (randomness : α) (values : List α)
    (stream : γ) : (perturbAll randomness values stream).1.length = values.length := by
  induction values generalizing stream with
  | nil => rfl
  | cons value rest ih => simp [perturbAll, ih]

omit [Scalar α] in
theorem NameTable.forall_alter {β : Type} {property : β → Prop} {table : NameTable β} {name : String}
    {default : β} {f : β → β} (all : ∀ named ∈ table, property named.2)
    (fresh : property (f default)) (kept : ∀ value, property value → property (f value)) :
    ∀ named ∈ table.alter name default f, property named.2 := by
  induction table with
  | nil => exact List.forall_mem_cons.mpr ⟨fresh, by simp⟩
  | cons named rest ih =>
    obtain ⟨here, later⟩ := List.forall_mem_cons.mp all
    unfold alter
    split
    · exact List.forall_mem_cons.mpr ⟨kept _ here, later⟩
    · exact List.forall_mem_cons.mpr ⟨here, ih later⟩

omit [Scalar α] in
theorem NameTable.Fits.alter {table : NameTable (List α)} (fits : table.Fits size) {name : String}
    {default : List α} {f : List α → List α} (sized : HasSize default size)
    (kept : ∀ counts, HasSize counts size → HasSize (f counts) size) :
    (table.alter name default f).Fits size :=
  @forall_alter _ (HasSize · size) _ _ _ _ fits (kept default sized) kept

theorem NameTable.Fits.addNamed {table : NameTable (List α)} (fits : table.Fits size)
    (name : String) {weights : List α} (sized : HasSize weights size) :
    (EmissionTables.addNamed name weights table).Fits size :=
  fits.alter (by simpa [HasSize] using sized) fun counts same => by simpa [HasSize] using same

namespace LatentTree

theorem length_posteriorIn {substates : List Nat} {node : LatentTree α}
    (fits : node.Fits substates) (mass : α) (scale : Int) :
    (node.posteriorIn mass scale).length = node.substates := by
  have sized : node.outside.values.length = node.inside.values.length := fits.top.outside
  unfold posteriorIn
  split
  · exact List.length_replicate
  · simp [sized, LatentTree.substates]

omit [Scalar α] in
theorem Fits.of_mem {substates : List Nat} {tree node : LatentTree α} (fits : tree.Fits substates)
    (member : node ∈ tree.subtrees) : node.Fits substates := by
  induction tree with
  | preterminal state word scores =>
    obtain rfl := List.mem_singleton.mp member
    exact fits
  | unary state scores child ih =>
    rcases List.mem_cons.mp member with rfl | below
    · exact fits
    · exact ih (fits_unary.mp fits).2 below
  | binary state scores left right leftIh rightIh =>
    obtain ⟨-, leftFits, rightFits⟩ := fits_binary.mp fits
    rcases List.mem_cons.mp member with rfl | below
    · exact fits
    · rcases List.mem_append.mp below with inLeft | inRight
      · exact leftIh leftFits inLeft
      · exact rightIh rightFits inRight

omit [Scalar α] in
theorem delivers_mass {tree : LatentTree α} (nonempty : 0 < tree.substates) :
    Delivers allowed (fun _ => True) tree.mass :=
  delivers_fetch ⟨_, List.getElem?_eq_getElem nonempty, trivial⟩

end LatentTree

namespace EmissionCounts

/-- Counts in a frame have tables for all substates of the frame. -/
structure InFrame (counts : EmissionCounts α) (frame : LexiconFrame α) : Prop where
  frame_eq : counts.toLexiconFrame = frame
  fits : counts.tables.Fits frame.substates

variable {counts : EmissionCounts α} {frame : LexiconFrame α} {policy : UnseenPolicy α}

theorem add_delivers (inFrame : counts.InFrame frame) {state : Nat}
    (found : frame.substates[state]? = some size) {weights : List α} (sized : HasSize weights size)
    (word : String) (position : Nat) :
    Delivers allowed (·.InFrame frame) (counts.add policy state word position weights) := by
  obtain ⟨same, fits⟩ := inFrame
  obtain ⟨words, foundWords, wordsFit⟩ := exists_of_forall₂ fits.wordCounts found
  obtain ⟨tags, foundTags, tagsFit⟩ := exists_of_forall₂ fits.tagCounts found
  obtain ⟨signs, foundSigns, signsFit⟩ := exists_of_forall₂ fits.unseenSignatureCounts found
  obtain ⟨unseen, foundUnseen, unseenFit⟩ := exists_of_forall₂ fits.unseenTagCounts found
  have added {old : List α} (fits : HasSize old size) : HasSize (Scalar.addInto old weights) size :=
    (Scalar.length_addInto old weights).trans fits
  unfold add
  simp only [fetch_eq_ok_iff.mpr foundWords, fetch_eq_ok_iff.mpr foundTags,
    fetch_eq_ok_iff.mpr foundSigns, fetch_eq_ok_iff.mpr foundUnseen]
  refine Delivers.ite (fun _ => ?_) fun _ => ?_
  · exact ⟨same, forall₂_set fits.tagCounts found (added tagsFit),
      forall₂_set fits.wordCounts found (wordsFit.addNamed word sized),
      forall₂_set fits.unseenTagCounts found (added unseenFit),
      forall₂_set fits.unseenSignatureCounts found (signsFit.addNamed _ sized)⟩
  · exact ⟨same, forall₂_set fits.tagCounts found (added tagsFit),
      forall₂_set fits.wordCounts found (wordsFit.addNamed word sized), fits.unseenTagCounts,
      fits.unseenSignatureCounts⟩

omit [Scalar α] in
theorem fits_of_leaf {substates : List Nat} {tree node : LatentTree α}
    (fits : tree.Fits substates) (leaf : node ∈ tree.preterminals) : node.Fits substates := by
  rw [LatentTree.preterminals_eq_filter] at leaf
  exact fits.of_mem (List.mem_filter.mp leaf).1

/-- What is kept by the addition of every token is kept when a scored tree is counted. -/
theorem countScored_keeps {invariant : EmissionCounts α → Prop} {tree : LatentTree α}
    (massed : Delivers allowed (fun _ => True) tree.mass) (initial : invariant counts)
    (adds : ∀ mass, tree.mass = .ok mass → ¬mass ≤ 0 → ∀ counts state word scores position,
      .preterminal state word scores ∈ tree.preterminals → invariant counts →
        Delivers allowed invariant (counts.add policy state word position
          ((LatentTree.preterminal state word scores).posteriorIn mass tree.inside.scale))) :
    Delivers allowed invariant (counts.countScored policy tree) := by
  apply massed.bind_ok
  intro mass known _
  apply Delivers.ite
  · intro _
    exact initial
  intro positive
  refine Delivers.foldlM initial fun counts (node, position) member holds => ?_
  have leaf : node ∈ tree.preterminals :=
    List.mem_of_getElem? (List.mem_zipIdx_iff_getElem?.mp member)
  cases node with
  | preterminal state word scores =>
    exact adds mass known positive counts state word scores position leaf holds
  | unary => exact holds
  | binary => exact holds

theorem countScored_delivers (inFrame : counts.InFrame frame) {tree : LatentTree α}
    (fits : tree.Fits frame.substates) (nonempty : 0 < tree.substates) :
    Delivers allowed (·.InFrame frame) (counts.countScored policy tree) := by
  refine countScored_keeps (LatentTree.delivers_mass nonempty) inFrame ?_
  intro mass _ _ counts state word scores position leaf inFrame
  have nodeFits := fits_of_leaf fits leaf
  exact add_delivers inFrame nodeFits.substates_eq (LatentTree.length_posteriorIn nodeFits ..) ..

theorem hasSize_proportions {weights : List α} (sized : HasSize weights size) :
    HasSize (proportions size weights) size := by
  unfold proportions
  simp only [HasSize]
  split
  · simpa [HasSize] using sized
  · simp

/-- What is kept by the addition of every token is kept when a tree without scores is counted, if the
reference can answer for all of its words. -/
theorem countUnscored_keeps {γ : Type} [Draws γ α] {invariant : EmissionCounts α → Prop}
    {substates : List Nat} {tree : LatentTree α} {reference : Option (Lexicon α)}
    (fits : tree.Fits substates)
    (answers : ∀ lexicon, reference = some lexicon →
      lexicon.substates = substates ∧ lexicon.Answers allowed)
    (known : ∀ counts, invariant counts → counts.substates = substates)
    (initial : invariant counts)
    (adds : ∀ counts state word scores position weights,
      .preterminal state word scores ∈ tree.preterminals → invariant counts →
        HasSize weights scores.inside.values.length →
          Delivers allowed invariant (counts.add policy state word position
            (proportions scores.inside.values.length weights)))
    (randomness : α) (stream : γ) :
    Delivers allowed (fun next => invariant next.1)
      (counts.countUnscored policy randomness reference tree stream) := by
  have leaves : ∀ entry ∈ tree.preterminals.zipIdx, entry.1 ∈ tree.preterminals :=
    fun entry member => List.mem_of_getElem? (List.mem_zipIdx_iff_getElem?.mp member)
  unfold countUnscored
  generalize tree.preterminals.zipIdx = entries at leaves ⊢
  induction entries generalizing counts stream with
  | nil => exact initial
  | cons entry rest ih =>
    obtain ⟨node, position⟩ := entry
    obtain ⟨leaf, later⟩ := List.forall_mem_cons.mp leaves
    cases node with
    | preterminal state word scores =>
      have here : (LatentTree.preterminal state word scores).Fits substates := fits_of_leaf fits leaf
      have size : fetch counts.substates state = .ok scores.inside.values.length := by
        rw [fetch_eq_ok_iff, known counts initial]
        exact here.substates_eq
      have counted (weights : List α) (sized : HasSize weights scores.inside.values.length) :
          Delivers allowed (fun next => invariant next.1) (do
            let noisy := perturbAll randomness weights stream
            let counts ← counts.add policy state word position
              (proportions scores.inside.values.length noisy.1)
            countTokens policy randomness reference rest counts noisy.2) := by
        have noisy := (length_perturbAll randomness weights stream).trans sized
        exact (adds counts state word scores position _ leaf initial noisy).bind
          fun counts holds => ih holds _ later
      rw [countTokens, size]
      cases reference with
      | none => exact counted _ List.length_replicate
      | some lexicon =>
        obtain ⟨same, answer⟩ := answers lexicon rfl
        exact (answer word state position _ (same ▸ here.substates_eq) here.top.room).bind counted
    | unary => exact ih initial stream later
    | binary => exact ih initial stream later

theorem countUnscored_delivers {γ : Type} [Draws γ α] {reference : Option (Lexicon α)}
    (inFrame : counts.InFrame frame) {tree : LatentTree α} (fits : tree.Fits frame.substates)
    (answers : ∀ lexicon, reference = some lexicon →
      lexicon.substates = frame.substates ∧ lexicon.Answers allowed)
    (randomness : α) (stream : γ) :
    Delivers allowed (·.1.InFrame frame)
      (counts.countUnscored policy randomness reference tree stream) := by
  have known (counts : EmissionCounts α) (inFrame : counts.InFrame frame) :
      counts.substates = frame.substates := congrArg (·.substates) inFrame.frame_eq
  refine countUnscored_keeps fits answers known inFrame ?_ randomness stream
  intro counts state word scores position weights leaf inFrame sized
  exact add_delivers inFrame (fits_of_leaf fits leaf).substates_eq (hasSize_proportions sized) ..

@[simp] theorem length_spread (total unseenTotal : α) (counts unseen : List α) :
    (spread total unseenTotal counts unseen).length = counts.length := by
  induction counts generalizing unseen with
  | nil => cases unseen <;> rfl
  | cons count counts ih => cases unseen <;> simp [spread, ih]

theorem fits_tieWords {words : NameTable (List α)} (fits : words.Fits size)
    (wordTotals : NameTable α) (rare : α) (unseen : List α) :
    (tieWords wordTotals rare unseen words).Fits size := by
  unfold tieWords
  simp only
  split
  · exact fits
  · intro entry member
    obtain ⟨⟨word, counts⟩, present, rfl⟩ := List.mem_map.mp member
    have sized : counts.length = size := fits (word, counts) present
    dsimp only
    split
    · exact sized
    · simpa using sized

/-- Tying the counts of rare words replaces the table of each tag by what tying makes of it. -/
theorem tieRare_replaces {relation : NameTable (List α) → NameTable (List α) → Prop}
    {substates : List Nat} (fits : counts.tables.Fits substates) (rare : α)
    (ties : ∀ size words unseen, NameTable.Fits words size → HasSize unseen size →
      relation (tieWords counts.tables.wordTotals rare unseen words) words) :
    Delivers allowed (fun next => ∃ wordCounts,
        List.Forall₂ relation wordCounts counts.tables.wordCounts ∧
          next = { counts with tables := { counts.tables with wordCounts } })
      (counts.tieRare rare) := by
  have tied : Delivers allowed (fun tables => tables.length = counts.tables.wordCounts.length ∧
      ∀ (state : Nat) words, tables[state]? = some words →
        ∀ old, counts.tables.wordCounts[state]? = some old → relation words old)
      (counts.tables.wordCounts.zipIdx.mapM fun entry => do
        return tieWords counts.tables.wordTotals rare
          (← fetch counts.tables.unseenTagCounts entry.2) entry.1) := by
    apply Delivers.mapM_zipIdx
    intro words state found
    have below : state < substates.length := by
      rw [← fits.wordCounts.length_eq]
      exact (List.getElem?_eq_some_iff.mp found).1
    have known := List.getElem?_eq_getElem below
    obtain ⟨unseen, foundUnseen, sized⟩ := exists_of_forall₂ fits.unseenTagCounts known
    dsimp only
    rw [fetch_eq_ok_iff.mpr foundUnseen]
    intro old again
    cases found.symm.trans again
    exact ties _ _ _ (relation_of_forall₂ fits.wordCounts found known) sized
  refine tied.bind fun wordCounts ⟨length, each⟩ => ⟨wordCounts, ?_, rfl⟩
  exact forall₂_of_getElem? length fun state words old found => each state words found old

theorem tieRare_delivers (inFrame : counts.InFrame frame) (rare : α) :
    Delivers allowed (·.InFrame frame) (counts.tieRare rare) := by
  obtain ⟨same, fits⟩ := inFrame
  let Sized (new old : NameTable (List α)) : Prop := ∀ size, old.Fits size → new.Fits size
  have replaced : Delivers allowed (fun next => ∃ wordCounts,
      List.Forall₂ Sized wordCounts counts.tables.wordCounts ∧
        next = { counts with tables := { counts.tables with wordCounts } }) (counts.tieRare rare) :=
    tieRare_replaces fits rare fun _ _ _ _ _ _ again => fits_tieWords again _ _ _
  apply replaced.mono
  rintro next ⟨wordCounts, sized, rfl⟩
  refine ⟨same, fits.tagCounts, ?_, fits.unseenTagCounts, fits.unseenSignatureCounts⟩
  exact forall₂_compose sized fits.wordCounts fun new old size kept old => kept size old

theorem empty_delivers (substates : List Nat) (overflow : allowed .overflow) :
    Delivers allowed (fun tables : EmissionTables α => tables.Fits substates)
      (EmissionTables.empty substates) := by
  have none : List.Forall₂ NameTable.Fits (substates.map fun _ => ([] : NameTable (List α)))
      substates :=
    List.forall₂_map_left_iff.mpr (List.forall₂_same.mpr fun _ _ => by simp [NameTable.Fits])
  apply (delivers_zero_rows substates overflow).bind
  intro tagCounts sized
  exact ⟨sized, none, sized, none⟩

theorem after_delivers (lexicon : Lexicon α) (overflow : allowed .overflow) :
    Delivers allowed (·.InFrame lexicon.toLexiconFrame) (after lexicon) :=
  (empty_delivers lexicon.substates overflow).bind fun _ fits => ⟨rfl, fits⟩

omit [Scalar α] in
/-- The lexicon that is estimated from counts is consistent if their frame is. -/
theorem InFrame.estimate (inFrame : counts.InFrame frame)
    (ancestry : List.Forall₂ Ancestry.Fits frame.ancestry frame.substates) :
    counts.estimate.toLexiconFrame = frame ∧ counts.estimate.Consistent := by
  obtain ⟨rfl, fits⟩ := inFrame
  exact ⟨rfl, ancestry, fits⟩

end EmissionCounts

end LatentGrammar
