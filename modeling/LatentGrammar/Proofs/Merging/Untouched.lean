import LatentGrammar.Proofs.Bookkeeping.Columns
import LatentGrammar.Proofs.Merging.Losses
import LatentGrammar.Proofs.Merging.Undoing

namespace LatentGrammar

variable {α : Type} [ExactScalar α] {allowed : Fault → Prop} {whole : Prop}
  {mappings : List (List Nat)} {images : List Nat} {state size : Nat}

theorem mapM_getElem? {β γ : Type} {f : β → Except Fault γ} {items : List β} {values : List γ}
    (done : items.mapM f = .ok values) {index : Nat} {item : β} (found : items[index]? = some item)
    {value : γ} (here : f item = .ok value) : values[index]? = some value := by
  have each : Delivers Any (List.Forall₂ (fun item value => f item = .ok value) items)
      (items.mapM f) :=
    Delivers.mapM fun item _ => (delivers_any _).mono_ok fun _ success _ => success
  obtain ⟨result, there, same⟩ := exists_of_forall₂ (each.of_ok done).flip found
  rw [there, Except.ok.inj (same.symm.trans here)]

theorem MapsOnto.eq_of_range {old new : Nat} (maps : MapsOnto (List.range size) old new) :
    new = size := by
  refine Nat.le_antisymm (Nat.le_of_not_lt fun less => ?_) (Nat.le_of_not_lt fun less => ?_)
  · exact absurd (List.mem_range.mp ((maps.onto size).mpr less)) (Nat.lt_irrefl _)
  · exact absurd ((maps.onto new).mp (List.mem_range.mpr less)) (Nat.lt_irrefl _)

theorem OntoMaps.image_of_range {substates : List Nat} (onto : OntoMaps mappings substates images)
    (kept : mappings[state]? = some (List.range size)) : images[state]? = some size := by
  obtain ⟨_, new, -, image, maps⟩ := onto.of_mapping kept
  rw [image, maps.eq_of_range]

theorem familyMap_one (size : Nat) : familyMap size 1 = List.range size := by
  simp [familyMap]

theorem shareCounts_one (counts : List α) : shareCounts 1 counts = counts := by
  induction counts with
  | nil => rfl
  | cons count rest ih =>
    rw [shareCounts_cons, ih, Nat.cast_one, List.replicate_one]
    exact congrArg (· :: rest) (div_one count)

/-- Families of one are merged into what they are. -/
theorem mergeCounts_range {counts : List α} (sized : counts.length = size) :
    mergeCounts size (List.range size) counts = .ok counts := by
  have merged := mergeCounts_share one_pos sized
  rwa [familyMap_one, shareCounts_one] at merged

theorem mergeTables_range {tables merged : List (NameTable (List α))}
    (done : mergeTables mappings images tables = .ok merged)
    (kept : mappings[state]? = some (List.range size)) (image : images[state]? = some size)
    {table : NameTable (List α)} (found : tables[state]? = some table) (fits : table.Fits size) :
    merged[state]? = some table := by
  refine mapM_getElem? done (zip_getElem? kept (zip_getElem? image found)) ?_
  refine mapM_eq_ok_of_forall₂ (List.forall₂_same.mpr fun (name, counts) member => ?_)
  dsimp only
  rw [mergeCounts_range (fits (name, counts) member)]
  rfl

theorem Ancestry.merge_range {ancestry : Ancestry} (fits : ancestry.Fits size)
    (room : size < Word.tableLimit) : ancestry.merge (List.range size) size = .ok ancestry := by
  obtain ⟨parents⟩ := ancestry
  have adopts (before rest : List (Option Nat)) :
      ((List.range' before.length rest.length).zipIdx before.length).foldlM (adopt (before ++ rest))
        (before ++ List.replicate rest.length none) = .ok (before ++ rest) := by
    induction rest generalizing before with
    | nil => rfl
    | cons parent rest ih =>
      have unset : (before ++ List.replicate (parent :: rest).length none)[before.length]? =
          some none := by simp [List.replicate_succ]
      have own : (before ++ parent :: rest)[before.length]? = some parent := by simp
      have step : adopt (before ++ parent :: rest)
          (before ++ List.replicate (parent :: rest).length none) (before.length, before.length) =
            .ok ((before ++ [parent]) ++ List.replicate rest.length none) := by
        simp only [adopt, fetch_eq_ok_iff.mpr unset, fetch_eq_ok_iff.mpr own, ok_bind]
        simp [List.replicate_succ]
        rfl
      have later := ih (before ++ [parent])
      rw [List.length_append, List.length_singleton, List.append_assoc, List.singleton_append]
        at later
      rw [List.length_cons, List.range'_succ, List.zipIdx_cons, List.foldlM_cons, ← List.length_cons]
      rw [step, ok_bind]
      simpa using later
  have all := adopts [] parents
  have length : parents.length = size := fits
  rw [List.length_nil, length, ← List.range_eq_range', List.nil_append, List.nil_append] at all
  rw [merge, fill_eq_ok_iff.mpr ⟨room, rfl⟩, ok_bind, all]
  rfl

theorem fetch_congr {β : Type} {one two : List β} {index : Nat}
    (same : one[index]? = two[index]?) : fetch one index = fetch two index := by
  unfold fetch
  rw [same]

namespace Lexicon

/-- The lexicons have the same settings and totals, and the same of everything about a category. -/
structure AgreesAt (one two : Lexicon α) (state : Nat) : Prop where
  size : one.substates[state]? = two.substates[state]?
  settings : one.settings = two.settings
  smoothing : one.smoothing = two.smoothing
  ancestry : one.ancestry[state]? = two.ancestry[state]?
  tags : one.tables.tagCounts[state]? = two.tables.tagCounts[state]?
  words : one.tables.wordCounts[state]? = two.tables.wordCounts[state]?
  wordTotals : one.tables.wordTotals = two.tables.wordTotals
  totalTokens : one.tables.totalTokens = two.tables.totalTokens
  unseenTags : one.tables.unseenTagCounts[state]? = two.tables.unseenTagCounts[state]?
  signatures :
    one.tables.unseenSignatureCounts[state]? = two.tables.unseenSignatureCounts[state]?
  signatureTotals : one.tables.unseenSignatureTotals = two.tables.unseenSignatureTotals
  unseenTotal : one.tables.unseenTotal = two.tables.unseenTotal

theorem AgreesAt.score_eq {one two : Lexicon α} (agrees : one.AgreesAt two state) (word : String)
    (position : Nat) : one.score word state position = two.score word state position := by
  simp only [score, sophisticatedScores, simpleScores, fetch_congr agrees.size, agrees.settings,
    agrees.smoothing, fetch_congr agrees.ancestry, fetch_congr agrees.tags,
    fetch_congr agrees.words, agrees.wordTotals, agrees.totalTokens,
    fetch_congr agrees.unseenTags, fetch_congr agrees.signatures, agrees.signatureTotals,
    agrees.unseenTotal]

/-- The counts of all tags, summed up from those of their words. -/
def columns (lexicon : Lexicon α) : List (List α) :=
  (lexicon.substates.zip lexicon.tables.wordCounts).map fun (size, words) =>
    EmissionTables.columnSums size words

/-- The same lexicon, the counts of tags summed up anew from those of their words. -/
def recounted (lexicon : Lexicon α) : Lexicon α :=
  { lexicon with tables := { lexicon.tables with tagCounts := lexicon.columns } }

/-- The counts of a tag are those that its words have, substate by substate. -/
def SummedAt (lexicon : Lexicon α) (state : Nat) : Prop :=
  lexicon.tables.tagCounts[state]? = lexicon.columns[state]?

/-- The scores of a category are those with its counts summed up anew; so they are the old ones if
the counts are as they would be. -/
structure Recounts (merged lexicon : Lexicon α) (state : Nat) : Prop where
  recounted : ∀ word position,
    merged.score word state position = lexicon.recounted.score word state position
  same : lexicon.SummedAt state → ∀ word position,
    merged.score word state position = lexicon.score word state position

variable {lexicon merged : Lexicon α}

theorem Recounts.of_agrees (agrees : merged.AgreesAt lexicon.recounted state) :
    merged.Recounts lexicon state where
  recounted := agrees.score_eq
  same summed word position := by
    have unchanged : lexicon.recounted.AgreesAt lexicon state :=
      ⟨rfl, rfl, rfl, rfl, summed.symm, rfl, rfl, rfl, rfl, rfl, rfl, rfl⟩
    exact (agrees.score_eq word position).trans (unchanged.score_eq word position)

theorem merge_onto (consistent : lexicon.Consistent)
    (onto : OntoMaps mappings lexicon.substates images)
    (crowded : (∃ size ∈ lexicon.substates, Word.tableLimit ≤ size) → allowed .overflow) :
    Delivers allowed (·.substates = images) (lexicon.merge mappings) := by
  have fewer (large : ∃ size ∈ images, Word.tableLimit ≤ size) : allowed .overflow := by
    obtain ⟨new, member, large⟩ := large
    obtain ⟨state, found⟩ := List.getElem?_of_mem member
    obtain ⟨size, there, less⟩ := exists_of_forall₂ onto.fewer.flip found
    exact crowded ⟨size, List.mem_of_getElem? there, large.trans less⟩
  have sizes := onto.mapM_imageSize crowded
  cases known : mappings.mapM imageSize with
  | error fault =>
    rw [known] at sizes
    rw [Lexicon.merge, known]
    exact sizes
  | ok reached =>
    rw [known] at sizes
    obtain rfl : reached = images := sizes
    by_cases crammed : ∃ size ∈ reached, Word.tableLimit ≤ size
    · rw [Lexicon.merge, known, ok_bind]
      refine (delivers_checkSizes fewer).bind_ok fun _ checked _ => ?_
      exact absurd crammed (not_crowded (checkSizes_eq_ok_iff.mp checked))
    · obtain ⟨ancestry, inherited, -⟩ := delivers_never_iff.mp <|
        mergeAncestries_delivers consistent.ancestry onto.maps fun large => absurd large crammed
      exact (merge_delivers consistent.tables known onto.maps inherited fewer).mono
        fun merged result => result.1

/-- Everything about a category that is mapped to itself stays, but for the counts of the tag. -/
theorem merge_agrees (consistent : lexicon.Consistent)
    (unseen : lexicon.tables.unseenTagCounts =
      (lexicon.substates.zip lexicon.tables.unseenSignatureCounts).map fun (size, signatures) =>
        EmissionTables.columnSums size signatures)
    (onto : OntoMaps mappings lexicon.substates images) (done : lexicon.merge mappings = .ok merged)
    (found : lexicon.substates[state]? = some size)
    (kept : mappings[state]? = some (List.range size)) :
    merged.AgreesAt lexicon.recounted state := by
  have image := onto.image_of_range kept
  have fits := consistent.tables
  obtain ⟨words, foundWords, wordsFit⟩ := exists_of_forall₂ fits.wordCounts found
  obtain ⟨signatures, foundSignatures, signaturesFit⟩ :=
    exists_of_forall₂ fits.unseenSignatureCounts found
  obtain ⟨ancestry, foundAncestry, ancestryFits⟩ := exists_of_forall₂ consistent.ancestry found
  -- the steps of the merge
  unfold merge at done
  obtain ⟨reached, known, done⟩ := bind_eq_ok_iff.mp done
  obtain rfl : reached = images := (onto.mapM_imageSize fun _ => any_overflow).of_ok known
  obtain ⟨_, checked, done⟩ := bind_eq_ok_iff.mp done
  have room := checkSizes_eq_ok_iff.mp checked
  rw [fitTables_eq (fits.wordCounts.length_eq.trans onto.images_eq.symm), ok_bind,
    fitTables_eq (fits.unseenSignatureCounts.length_eq.trans onto.images_eq.symm), ok_bind] at done
  obtain ⟨newWords, wordsMerged, done⟩ := bind_eq_ok_iff.mp done
  obtain ⟨newSignatures, signaturesMerged, done⟩ := bind_eq_ok_iff.mp done
  obtain ⟨ancestries, inherited, done⟩ := bind_eq_ok_iff.mp done
  obtain rfl := Except.ok.inj done
  -- what they do at the category
  have sameWords := mergeTables_range wordsMerged kept image foundWords wordsFit
  have sameSignatures := mergeTables_range signaturesMerged kept image foundSignatures signaturesFit
  have sameAncestry : ancestries[state]? = some ancestry :=
    mapM_getElem? inherited (zip_getElem? foundAncestry (zip_getElem? kept image))
      (Ancestry.merge_range ancestryFits (room size (List.mem_of_getElem? image)))
  exact {
    size := image.trans found.symm
    settings := rfl
    smoothing := rfl
    ancestry := sameAncestry.trans foundAncestry.symm
    tags := (getElem?_columnSums image sameWords).trans (getElem?_columnSums found foundWords).symm
    words := sameWords.trans foundWords.symm
    wordTotals := rfl
    totalTokens := rfl
    unseenTags := by
      rw [recounted, unseen]
      exact (getElem?_columnSums image sameSignatures).trans
        (getElem?_columnSums found foundSignatures).symm
    signatures := sameSignatures.trans foundSignatures.symm
    signatureTotals := rfl
    unseenTotal := rfl }

end Lexicon

omit [ExactScalar α] in
/-- Where no pair is selected, every category is mapped to itself. -/
theorem collapseMaps_nothing {substates : List Nat}
    (crowded : (∃ size ∈ substates, Word.tableLimit ≤ size) → allowed .overflow) :
    Delivers allowed (fun mappings : List (List Nat) => (∃ images, OntoMaps mappings substates images) ∧
        ∀ (state size : Nat), substates[state]? = some size →
          mappings[state]? = some (List.range size))
      (collapseMaps substates ([] : List (SiblingPair α))) := by
  have nothing (state : Nat) : DisjointPairs (SiblingPair.pairsOf state ([] : List (SiblingPair α))) :=
    ⟨fun _ absent => absurd absent List.not_mem_nil, .nil⟩
  refine (collapseMaps_relabels nothing (fun _ absent => absurd absent List.not_mem_nil)
    crowded).mono fun mappings holds => ⟨⟨_, holds.1.onto⟩, fun state size found => ?_⟩
  obtain ⟨_, present, -⟩ := holds.1.onto.of_size found
  rw [present, (holds.1.collapses state _ size present found).eq_range]

namespace EmissionCounts

variable {counts : EmissionCounts α} {frame : LexiconFrame α}

theorem BalancedIn.substates_eq (balanced : counts.BalancedIn whole frame) :
    counts.estimate.substates = frame.substates :=
  congrArg (·.substates) balanced.inFrame.frame_eq

/-- The accounts of the unseen tokens are kept by substates, whatever has been tied. -/
theorem BalancedIn.unseen_eq (balanced : counts.BalancedIn whole frame) :
    counts.tables.unseenTagCounts =
      (frame.substates.zip counts.tables.unseenSignatureCounts).map fun (size, signatures) =>
        EmissionTables.columnSums size signatures :=
  eq_map_columnSums balanced.tables.unseenTags balanced.inFrame.fits.unseenTagCounts
    balanced.inFrame.fits.unseenSignatureCounts

/-- Summing up anew moves counts between the substates of a tag. -/
theorem BalancedIn.columns_sum (balanced : counts.BalancedIn whole frame) :
    List.Forall₂ (fun columns tags => columns.sum = tags.sum) counts.estimate.columns
      counts.tables.tagCounts := by
  have columns : List.Forall₂ (fun sums words => sums.sum = NameTable.total List.sum words)
      counts.estimate.columns counts.tables.wordCounts := by
    rw [Lexicon.columns, balanced.substates_eq]
    exact forall₂_columnSums (fun _ _ fits => additive_sum.columnSums fits)
      balanced.inFrame.fits.wordCounts
  exact forall₂_compose columns balanced.tables.tags.flip fun _ _ _ sums tags =>
    sums.trans tags.symm

/-- A single substate has what its tag has. -/
theorem BalancedIn.summedAt_of_single (balanced : counts.BalancedIn whole frame)
    (single : frame.substates[state]? = some 1) : counts.estimate.SummedAt state := by
  obtain ⟨tags, foundTags, sized⟩ := exists_of_forall₂ balanced.inFrame.fits.tagCounts single
  obtain ⟨words, foundWords, fits⟩ := exists_of_forall₂ balanced.inFrame.fits.wordCounts single
  have sums := relation_of_forall₂ balanced.tables.tags foundTags foundWords
  have columns : counts.estimate.columns[state]? = some (EmissionTables.columnSums 1 words) := by
    rw [Lexicon.columns, balanced.substates_eq]
    exact getElem?_columnSums single foundWords
  rw [Lexicon.SummedAt, columns, ← eq_columnSums_of_single sized fits sums]
  exact foundTags

/-- Where no words have been tied, the counts of tags are column sums already. -/
theorem Tallied.summedAt (tallied : counts.Tallied frame) (state : Nat) :
    counts.estimate.SummedAt state := by
  have columnsIn := tallied.columnsIn
  have substates : counts.estimate.substates = frame.substates :=
    congrArg (·.substates) columnsIn.inFrame.frame_eq
  rw [Lexicon.SummedAt, Lexicon.columns, substates]
  exact congrArg (·[state]?) columnsIn.tagsSummed

/-- A merge sums up anew what it leaves alone. -/
theorem BalancedIn.merge_onto (balanced : counts.BalancedIn whole frame)
    (ancestry : List.Forall₂ Ancestry.Fits frame.ancestry frame.substates)
    (onto : OntoMaps mappings frame.substates images)
    (crowded : (∃ size ∈ frame.substates, Word.tableLimit ≤ size) → allowed .overflow) :
    Delivers allowed
      (fun merged => ∀ (state size : Nat), frame.substates[state]? = some size →
        mappings[state]? = some (List.range size) → merged.Recounts counts.estimate state)
      (counts.estimate.merge mappings) := by
  have consistent := (balanced.inFrame.estimate ancestry).2
  have unseen := balanced.unseen_eq
  rw [← balanced.substates_eq] at unseen onto crowded ⊢
  refine (Lexicon.merge_onto consistent onto crowded).mono_ok ?_
  intro merged done _ state size found kept
  exact .of_agrees (Lexicon.merge_agrees consistent unseen onto done found kept)

/-- A merge of no pairs leaves every category alone. -/
theorem BalancedIn.merge_nothing (balanced : counts.BalancedIn whole frame)
    (ancestry : List.Forall₂ Ancestry.Fits frame.ancestry frame.substates) {model : Model α}
    {categories root : Nat} {weights : List (List α)} (consistent : model.Consistent categories root)
    (same : model.lexicon = counts.estimate) (enough : model.substates.length ≤ weights.length) :
    Delivers model.grammar.Cramped
      (fun merged => ∀ state < categories, merged.lexicon.Recounts counts.estimate state)
      (model.merge [] weights) := by
  have sizes : model.grammar.substates = frame.substates := by
    rw [← balanced.substates_eq, ← same, consistent.substates_eq]
  refine (collapseMaps_nothing Grammar.cramped_of_large).bind fun mappings holds => ?_
  obtain ⟨⟨images, onto⟩, kept⟩ := holds
  refine (onto.merge_delivers consistent.rules consistent.ancestry enough).bind fun grammar _ => ?_
  rw [same]
  have crowded (large : ∃ size ∈ frame.substates, Word.tableLimit ≤ size) :
      model.grammar.Cramped .overflow := Grammar.cramped_of_large (sizes ▸ large)
  have lexicons := balanced.merge_onto ancestry (sizes ▸ onto) crowded
  refine lexicons.bind fun lexicon recounts state below => ?_
  obtain ⟨size, found⟩ : ∃ size, model.grammar.substates[state]? = some size :=
    ⟨_, List.getElem?_eq_getElem (consistent.categories_eq.symm ▸ below)⟩
  exact recounts state size (sizes ▸ found) (kept state size found)

/-- What a merge does to the categories that it maps to themselves: they score as if the counts of
their tags had been summed up anew. That moves counts between the substates of a tag, so it shows in
the scores, unless the tag has a single substate or no words have been tied. A merge of no pairs at
all is no exception. -/
theorem Counted.merge_recounts (counted : counts.Counted whole frame)
    (ancestry : List.Forall₂ Ancestry.Fits frame.ancestry frame.substates) :
    (∀ mappings images, OntoMaps mappings frame.substates images →
      Delivers (fun fault => fault = .overflow ∧ ∃ size ∈ frame.substates, Word.tableLimit ≤ size)
        (fun merged => ∀ (state size : Nat), frame.substates[state]? = some size →
          mappings[state]? = some (List.range size) → merged.Recounts counts.estimate state)
        (counts.estimate.merge mappings)) ∧
    (∀ (model : Model α) (categories root : Nat) (weights : List (List α)),
      model.Consistent categories root → model.lexicon = counts.estimate →
        model.substates.length ≤ weights.length →
          Delivers model.grammar.Cramped
            (fun merged => ∀ state < categories, merged.lexicon.Recounts counts.estimate state)
            (model.merge [] weights)) ∧
    List.Forall₂ (fun columns tags => columns.sum = tags.sum) counts.estimate.columns
      counts.tables.tagCounts ∧
    (∀ state, frame.substates[state]? = some 1 → counts.estimate.SummedAt state) ∧
    (counts.Tallied frame → ∀ state, counts.estimate.SummedAt state) := by
  have balanced := counted.balancedIn
  refine ⟨?_, ?_, balanced.columns_sum, fun _ => balanced.summedAt_of_single, Tallied.summedAt⟩
  · intro mappings images onto
    exact balanced.merge_onto ancestry onto fun large => ⟨rfl, large⟩
  · intro model categories root weights consistent same enough
    exact balanced.merge_nothing ancestry consistent same enough

end EmissionCounts

/-- A tree with one word, and how likely each substate of its tag is. -/
def leaningTree (word : String) (first : Rat) : LatentTree Rat :=
  .unary 0 ⟨⟨[1], 0⟩, ⟨[1], 0⟩⟩
    (.preterminal 1 word ⟨⟨[first, 1 - first], 0⟩, ⟨[1, 1], 0⟩⟩)

theorem leaningTree_fits (word : String) (first : Rat) : (leaningTree word first).Fits [1, 2] := by
  have room : 2 < Word.tableLimit := by decide
  simp only [leaningTree, LatentTree.fits_unary, LatentTree.fits_preterminal]
  exact ⟨⟨rfl, rfl, Nat.lt_of_succ_lt room⟩, ⟨rfl, rfl, room⟩⟩

/-- The words are counted, the later one as unseen, and tied. -/
def tiedCounts : Except Fault (EmissionCounts Rat) := do
  let counts ← EmissionCounts.start [1, 2] 0 .standard
  let counts ← counts.countScored ⟨false, 20⟩ (leaningTree "rain" (3 / 4))
  let counts ← counts.countScored ⟨true, 20⟩ (leaningTree "fell" (1 / 4))
  counts.tieRare 20

/-- The scores of a word before and after a merge that maps every substate to itself. -/
def tiedScores : Except Fault (List Rat × List Rat) := do
  let counts ← tiedCounts
  let merged ← counts.estimate.merge [[0], [0, 1]]
  return (← counts.estimate.score "rain" 1 0, ← merged.score "rain" 1 0)

theorem tiedScores_eq : tiedScores = .ok ([1 / 4, 3 / 4], [1 / 2, 1 / 2]) := by
  decide +kernel

theorem identity_onto : OntoMaps [[0], [0, 1]] [1, 2] [1, 2] :=
  .cons ⟨rfl, by simp⟩ (.cons ⟨rfl, fun image => by simp; omega⟩ .nil)

theorem exists_tiedCounts : ∃ counts frame merged,
    tiedCounts = .ok counts ∧ counts.Counted False frame ∧ frame.substates = [1, 2] ∧
      List.Forall₂ Ancestry.Fits frame.ancestry frame.substates ∧
      counts.estimate.merge [[0], [0, 1]] = .ok merged ∧
      counts.estimate.score "rain" 1 0 = .ok [1 / 4, 3 / 4] ∧
      merged.score "rain" 1 0 = .ok [1 / 2, 1 / 2] := by
  obtain ⟨counts, done, rest⟩ := bind_eq_ok_iff.mp tiedScores_eq
  obtain ⟨merged, merges, rest⟩ := bind_eq_ok_iff.mp rest
  obtain ⟨old, before, rest⟩ := bind_eq_ok_iff.mp rest
  obtain ⟨new, after, rest⟩ := bind_eq_ok_iff.mp rest
  obtain ⟨rfl, rfl⟩ := Prod.mk.inj (Except.ok.inj rest)
  obtain ⟨fresh, begun, steps⟩ := bind_eq_ok_iff.mp done
  obtain ⟨one, rain, steps⟩ := bind_eq_ok_iff.mp steps
  obtain ⟨two, fell, tied⟩ := bind_eq_ok_iff.mp steps
  obtain ⟨substates, ancestry⟩ : fresh.substates = [1, 2] ∧
      List.Forall₂ Ancestry.Fits fresh.ancestry fresh.substates := by
    obtain ⟨ancestries, uniform, begun⟩ := bind_eq_ok_iff.mp begun
    obtain ⟨_, -, begun⟩ := bind_eq_ok_iff.mp begun
    obtain rfl := Except.ok.inj begun
    obtain rfl := Except.ok.inj uniform
    exact ⟨rfl, .cons rfl (.cons rfl .nil)⟩
  have fits (word : String) (first : Rat) : (leaningTree word first).Fits fresh.substates :=
    substates ▸ leaningTree_fits word first
  refine ⟨counts, fresh.toLexiconFrame, merged, done, ?_, substates, ancestry, merges, before,
    after⟩
  have first : fresh.Counted False fresh.toLexiconFrame := .start begun
  have second := (first.scored (fits _ _) False.elim rain).scored (fits _ _) False.elim fell
  exact second.tied tied

theorem tiedCounts_merge_recounts : ∃ counts merged, tiedCounts = .ok counts ∧
    counts.estimate.merge [[0], [0, 1]] = .ok merged ∧ merged.Recounts counts.estimate 1 := by
  obtain ⟨counts, frame, merged, done, counted, substates, ancestry, merges, -⟩ := exists_tiedCounts
  have onto : OntoMaps [[0], [0, 1]] frame.substates [1, 2] := substates ▸ identity_onto
  have second : frame.substates[1]? = some 2 := by rw [substates]; rfl
  have recounts := ((counted.merge_recounts ancestry).1 _ _ onto).of_ok merges 1 2 second rfl
  exact ⟨counts, merged, done, merges, recounts⟩

/-- A merge can change the scores of a category although it maps each of its substates to itself. -/
theorem tiedCounts_merge_rescores :
    ¬∀ (frame : LexiconFrame Rat) (counts : EmissionCounts Rat), counts.Counted False frame →
      List.Forall₂ Ancestry.Fits frame.ancestry frame.substates →
        ∀ mappings images, OntoMaps mappings frame.substates images →
          ∀ merged, counts.estimate.merge mappings = .ok merged →
            ∀ (state size : Nat), frame.substates[state]? = some size →
              mappings[state]? = some (List.range size) → ∀ word position,
                merged.score word state position = counts.estimate.score word state position := by
  intro claimed
  obtain ⟨counts, frame, merged, -, counted, substates, ancestry, merges, before, after⟩ :=
    exists_tiedCounts
  have onto : OntoMaps [[0], [0, 1]] frame.substates [1, 2] := substates ▸ identity_onto
  have second : frame.substates[1]? = some 2 := by rw [substates]; rfl
  have same := claimed frame counts counted ancestry _ _ onto merged merges 1 2 second rfl "rain" 0
  rw [before, after] at same
  norm_num at same

end LatentGrammar
