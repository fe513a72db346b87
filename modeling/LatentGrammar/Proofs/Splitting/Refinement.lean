import LatentGrammar.Proofs.Bookkeeping.Sums
import LatentGrammar.Proofs.Consistency.Run
import LatentGrammar.Proofs.Counting.RuleSums
import LatentGrammar.Proofs.Scoring.Inside
import LatentGrammar.Proofs.Scoring.Skeleton
import LatentGrammar.Proofs.Splitting.Shares

namespace LatentGrammar

open Finset

variable {α : Type} [ExactScalar α]

/-- The counts of tags are those of all their words, and of all their unseen signatures. -/
structure EmissionTables.Summed (tables : EmissionTables α) (substates : List Nat) : Prop where
  tagCounts : tables.tagCounts =
    (substates.zip tables.wordCounts).map fun (size, words) => columnSums size words
  unseenTagCounts : tables.unseenTagCounts =
    (substates.zip tables.unseenSignatureCounts).map fun (size, words) => columnSums size words

namespace Lexicon

/-- The score of a word that is estimated from the counts of one substate: of its tokens, of its
unseen tokens, of the word and of the word's signature. -/
def estimate (lexicon : Lexicon α) (word : String) (position : Nat)
    (tag unseen wordCount signatureCount : α) : α :=
  let tables := lexicon.tables
  let wordTotal := (tables.wordTotals.get? word).getD 0
  let signatureTotal := (tables.unseenSignatureTotals.get? (signature word position)).getD 0
  let wordShare :=
    if 0 < wordTotal then wordTotal / tables.totalTokens else 1 / (tables.totalTokens + 1)
  let tagShare := tag / tables.totalTokens
  let tagUnseen := if 0 < tables.unseenTotal then unseen / tables.unseenTotal else tagShare
  let givenSignature := tagGivenSignature lexicon.settings signatureCount signatureTotal tagUnseen
  let givenWord := tagGivenWord lexicon.settings wordCount wordTotal givenSignature
  if tagShare ≤ 0 then 0 else givenWord * wordShare / tagShare

variable {lexicon : Lexicon α} {factor : α}

theorem tagGivenSignature_div (settings : LexiconSettings α) (count total unseen : α) :
    tagGivenSignature settings (count / factor) total (unseen / factor) =
      tagGivenSignature settings count total unseen / factor := by
  show (count / factor + settings.signatureSmoothing * (unseen / factor)) / _ =
    (count + settings.signatureSmoothing * unseen) / _ / factor
  rw [mul_div_assoc', ← add_div, div_right_comm]

theorem tagGivenWord_div (settings : LexiconSettings α) (count total given : α) :
    tagGivenWord settings (count / factor) total (given / factor) =
      tagGivenWord settings count total given / factor := by
  unfold tagGivenWord
  split
  · exact div_right_comm _ _ _
  · split
    · show (count / factor + settings.wordSmoothing * (given / factor)) / _ =
        (count + settings.wordSmoothing * given) / _ / factor
      rw [mul_div_assoc', ← add_div, div_right_comm]
    · rfl

theorem estimate_div (positive : 0 < factor) (word : String) (position : Nat)
    (tag unseen wordCount signatureCount : α) :
    lexicon.estimate word position (tag / factor) (unseen / factor) (wordCount / factor)
        (signatureCount / factor) =
      lexicon.estimate word position tag unseen wordCount signatureCount := by
  have share : tag / factor / lexicon.tables.totalTokens =
      tag / lexicon.tables.totalTokens / factor := div_right_comm _ _ _
  have unseenShare : (if 0 < lexicon.tables.unseenTotal then
        unseen / factor / lexicon.tables.unseenTotal
      else tag / lexicon.tables.totalTokens / factor) =
      (if 0 < lexicon.tables.unseenTotal then unseen / lexicon.tables.unseenTotal
        else tag / lexicon.tables.totalTokens) / factor := by
    split
    · exact div_right_comm _ _ _
    · rfl
  have pruned : tag / lexicon.tables.totalTokens / factor ≤ 0 ↔
      tag / lexicon.tables.totalTokens ≤ 0 := by
    rw [div_le_iff₀ positive, zero_mul]
  unfold estimate
  simp only [share, unseenShare, tagGivenSignature_div, tagGivenWord_div, pruned]
  split
  · rfl
  · rw [div_mul_eq_mul_div, div_div_div_cancel_right₀ positive.ne']

/-- The scores of the substates of a category, each from its own counts. -/
theorem sophisticatedScores_eq {word : String} {state position size : Nat}
    {tags unseen : List α} {words signs : NameTable (List α)}
    (tagsFound : lexicon.tables.tagCounts[state]? = some tags) (tagsSized : tags.length = size)
    (unseenFound : lexicon.tables.unseenTagCounts[state]? = some unseen)
    (unseenSized : unseen.length = size)
    (wordsFound : lexicon.tables.wordCounts[state]? = some words) (wordsFit : words.Fits size)
    (signsFound : lexicon.tables.unseenSignatureCounts[state]? = some signs)
    (signsFit : signs.Fits size) (some : ¬lexicon.tables.totalTokens ≤ 0) :
    lexicon.sophisticatedScores word state position size =
      .ok ((List.range size).map fun s => lexicon.estimate word position (entry tags s)
        (entry unseen s) (entry ((words.get? word).getD []) s)
        (entry ((signs.get? (signature word position)).getD []) s)) := by
  have counted {names : NameTable (List α)} (fits : names.Fits size) (name : String) {s : Nat}
      (below : s < size) :
      countOf (names.get? name) s = .ok (entry ((names.get? name).getD []) s) := by
    cases found : names.get? name with
    | none => rfl
    | some counts => exact RuleBlock.fetch_eq_entry (by rw [fits.get? found]; exact below)
  simp only [sophisticatedScores, if_neg some, fetch_eq_ok_iff.mpr wordsFound,
    fetch_eq_ok_iff.mpr signsFound, fetch_eq_ok_iff.mpr tagsFound,
    fetch_eq_ok_iff.mpr unseenFound, ok_bind]
  rw [tabulate_eq_mapM]
  refine mapM_eq_map fun s member => ?_
  have below := List.mem_range.mp member
  rw [RuleBlock.fetch_eq_entry (tagsSized ▸ below), RuleBlock.fetch_eq_entry (unseenSized ▸ below),
    counted signsFit _ below, counted wordsFit _ below]
  simp only [ok_bind, estimate]
  split
  · rfl
  · split <;> rfl

end Lexicon

theorem NameTable.get?_share (factor : Nat) (table : NameTable (List α)) (name : String) :
    (table.share factor).get? name = (table.get? name).map (shareCounts factor) :=
  get?_map (fun _ => shareCounts factor) table name

theorem NameTable.entry_share {factor : Nat} (some : 0 < factor) (table : NameTable (List α))
    (name : String) (s : Nat) :
    entry (((table.share factor).get? name).getD []) s =
      entry ((table.get? name).getD []) (s / factor) / (factor : α) := by
  rw [get?_share]
  cases table.get? name with
  | none => exact (zero_div _).symm
  | some counts => exact entry_shareCounts some

/-- The tables of all categories for families of substates. -/
def shareTables (factors : List Nat) (tables : List (NameTable (List α))) :
    List (NameTable (List α)) :=
  (factors.zip tables).map fun (factor, table) => table.share factor

variable {γ : Type} [Draws γ α] {substates factors counts : List Nat} {unbounded : Bool}
  {stream later : γ}

namespace Lexicon

variable {lexicon split : Lexicon α}

/-- A lexicon that was split without noise. -/
structure Shares (split lexicon : Lexicon α) (factors : List Nat) : Prop where
  substates_eq : split.substates = products lexicon.substates factors
  settings_eq : split.settings = lexicon.settings
  smoothing_eq : split.smoothing = .none
  ancestry_eq : split.ancestry = splitAncestries lexicon.ancestry factors
  tables_eq : split.tables = lexicon.tables.retable (products lexicon.substates factors)
    (shareTables factors lexicon.tables.wordCounts)
    (shareTables factors lexicon.tables.unseenSignatureCounts)
  room : ∀ size ∈ split.substates, size < Word.tableLimit

theorem split_shares (fits : lexicon.tables.Fits lexicon.substates)
    (grows : growthFactors lexicon.substates lexicon.root counts unbounded = .ok factors)
    (success : lexicon.split 0 counts unbounded stream = .ok (split, later)) :
    split.Shares lexicon factors := by
  have grow := (growthFactors_delivers lexicon.substates lexicon.root counts unbounded
    any_overflow).of_ok grows
  have length := grow.length_products
  unfold Lexicon.split at success
  rw [grows, ok_bind] at success
  obtain ⟨substates, grown, success⟩ := bind_eq_ok_iff.mp success
  obtain rfl := (multiply_delivers _ factors any_overflow).of_ok grown
  obtain ⟨_, room, success⟩ := bind_eq_ok_iff.mp success
  rw [fitTables_eq (fits.wordCounts.length_eq.trans length.symm),
    fitTables_eq (fits.unseenSignatureCounts.length_eq.trans length.symm)] at success
  obtain ⟨rfl, -⟩ := Prod.mk.inj (Except.ok.inj success)
  refine ⟨rfl, rfl, rfl, rfl, ?_, checkSizes_eq_ok_iff.mp room⟩
  simp only [splitTables_zero, shareTables]

omit [Draws γ α] in
theorem score_of_raw {state size : Nat} {word : String} {position : Nat} {scores : List α}
    (found : lexicon.substates[state]? = some size)
    (ancestry : List.Forall₂ Ancestry.Fits lexicon.ancestry lexicon.substates)
    (smoothing : lexicon.smoothing = .none)
    (raw : lexicon.rawScores word state position size = .ok scores) :
    lexicon.score word state position =
      .ok (scores.map fun score => if score < lexicon.settings.threshold then 0 else score) := by
  obtain ⟨_, present, -⟩ := exists_of_forall₂ ancestry found
  rw [score_eq, fetch_eq_ok_iff.mpr found, ok_bind, raw, ok_bind, fetch_eq_ok_iff.mpr present,
    smoothing]
  rfl

/-- The tables of a category after a split: counts of names are shared out, and so are their sums. -/
theorem Shares.tables (shares : split.Shares lexicon factors)
    (summed : lexicon.tables.Summed lexicon.substates)
    {state size factor : Nat} {words signs : NameTable (List α)} {tags unseen : List α}
    (found : lexicon.substates[state]? = some size) (grows : factors[state]? = some factor)
    (wordsFound : lexicon.tables.wordCounts[state]? = some words)
    (signsFound : lexicon.tables.unseenSignatureCounts[state]? = some signs)
    (tagsFound : lexicon.tables.tagCounts[state]? = some tags)
    (unseenFound : lexicon.tables.unseenTagCounts[state]? = some unseen) :
    split.tables.wordCounts[state]? = some (words.share factor) ∧
      split.tables.unseenSignatureCounts[state]? = some (signs.share factor) ∧
      split.tables.tagCounts[state]? = some (shareCounts factor tags) ∧
      split.tables.unseenTagCounts[state]? = some (shareCounts factor unseen) := by
  have product := products_getElem? found grows
  have shared {tables : List (NameTable (List α))} {table : NameTable (List α)}
      (present : tables[state]? = some table) :
      (shareTables factors tables)[state]? = some (table.share factor) := by
    simp [shareTables, zip_getElem? grows present]
  rw [summed.tagCounts] at tagsFound
  rw [summed.unseenTagCounts] at unseenFound
  simp only [List.getElem?_map, zip_getElem? found wordsFound, Option.map_some,
    Option.some.injEq] at tagsFound
  simp only [List.getElem?_map, zip_getElem? found signsFound, Option.map_some,
    Option.some.injEq] at unseenFound
  subst tagsFound unseenFound
  rw [shares.tables_eq]
  refine ⟨shared wordsFound, shared signsFound, ?_, ?_⟩
  · simp [EmissionTables.retable, zip_getElem? product (shared wordsFound), columnSums_share]
  · simp [EmissionTables.retable, zip_getElem? product (shared signsFound), columnSums_share]

/-- Before pruning, every substate of a split lexicon scores every word as its ancestor did. -/
theorem Shares.rawScores (shares : split.Shares lexicon factors)
    (grow : FactorsFit factors lexicon.substates lexicon.root) (consistent : lexicon.Consistent)
    (summed : lexicon.tables.Summed lexicon.substates)
    (kind : lexicon.settings.kind = .sophisticated)
    {state size factor : Nat} (found : lexicon.substates[state]? = some size)
    (grows : factors[state]? = some factor) (word : String) (position : Nat) :
    ∃ old new, lexicon.rawScores word state position size = .ok old ∧
      split.rawScores word state position (size * factor) = .ok new ∧ old.length = size ∧
      new.length = size * factor ∧ ∀ s < size * factor, new[s]? = old[s / factor]? := by
  have some : 0 < factor := grow.positive grows
  have ancestor {s : Nat} (below : s < size * factor) : s / factor < size :=
    Nat.div_lt_of_lt_mul (Nat.mul_comm size factor ▸ below)
  have product := products_getElem? found grows
  have room : size * factor < Word.tableLimit :=
    shares.room _ (shares.substates_eq ▸ List.mem_of_getElem? product)
  have oldRoom : size < Word.tableLimit := (Nat.le_mul_of_pos_right size some).trans_lt room
  obtain ⟨words, wordsFound, wordsFit⟩ := exists_of_forall₂ consistent.tables.wordCounts found
  obtain ⟨tags, tagsFound, tagsFit⟩ := exists_of_forall₂ consistent.tables.tagCounts found
  obtain ⟨signs, signsFound, signsFit⟩ :=
    exists_of_forall₂ consistent.tables.unseenSignatureCounts found
  obtain ⟨unseen, unseenFound, unseenFit⟩ :=
    exists_of_forall₂ consistent.tables.unseenTagCounts found
  obtain ⟨newWords, newSigns, newTags, newUnseen⟩ :=
    shares.tables summed found grows wordsFound signsFound tagsFound unseenFound
  have fits {table : NameTable (List α)} (fits : table.Fits size) :
      (table.share factor).Fits (size * factor) := by
    intro entry member
    obtain ⟨⟨name, counts⟩, present, rfl⟩ := List.mem_map.mp member
    rw [length_shareCounts, fits _ present]
  have sized {counts : List α} (sized : counts.length = size) :
      (shareCounts factor counts).length = size * factor := by
    rw [length_shareCounts, sized]
  have total : split.tables.totalTokens = lexicon.tables.totalTokens := by
    rw [shares.tables_eq]
    rfl
  have estimates : split.estimate word position = lexicon.estimate word position := by
    funext tag unseen wordCount signatureCount
    unfold estimate
    rw [shares.tables_eq, shares.settings_eq]
    rfl
  unfold Lexicon.rawScores
  rw [shares.settings_eq, kind]
  by_cases empty : lexicon.tables.totalTokens ≤ 0
  · refine ⟨List.replicate size 0, List.replicate (size * factor) 0, ?_, ?_, List.length_replicate,
      List.length_replicate, fun s below => ?_⟩
    · simp [sophisticatedScores, empty, fill_eq_ok_iff.mpr ⟨oldRoom, rfl⟩]
    · simp [sophisticatedScores, total, empty, fill_eq_ok_iff.mpr ⟨room, rfl⟩]
    · rw [List.getElem?_replicate_of_lt below, List.getElem?_replicate_of_lt (ancestor below)]
  · refine ⟨_, _, sophisticatedScores_eq tagsFound tagsFit unseenFound unseenFit wordsFound wordsFit
      signsFound signsFit empty,
      sophisticatedScores_eq newTags (sized tagsFit) newUnseen (sized unseenFit) newWords
        (fits wordsFit) newSigns (fits signsFit) (total ▸ empty), by simp, by simp,
      fun s below => ?_⟩
    rw [List.getElem?_map, List.getElem?_map, List.getElem?_range below,
      List.getElem?_range (ancestor below)]
    simp only [Option.map_some, estimates, entry_shareCounts some, NameTable.entry_share some]
    rw [estimate_div (Nat.cast_pos.mpr some)]

theorem Shares.score (shares : split.Shares lexicon factors)
    (grow : FactorsFit factors lexicon.substates lexicon.root) (consistent : lexicon.Consistent)
    (summed : lexicon.tables.Summed lexicon.substates)
    (kind : lexicon.settings.kind = .sophisticated) (smoothing : lexicon.smoothing = .none)
    {state size factor : Nat} (found : lexicon.substates[state]? = some size)
    (grows : factors[state]? = some factor) (word : String) (position : Nat) :
    ∃ old new, lexicon.score word state position = .ok old ∧
      split.score word state position = .ok new ∧ old.length = size ∧
      new.length = size * factor ∧ ∀ s < size * factor, new[s]? = old[s / factor]? := by
  have product := products_getElem? found grows
  have newAncestry := grow.splitAncestries consistent.ancestry
  rw [← shares.ancestry_eq, ← shares.substates_eq] at newAncestry
  rw [← shares.substates_eq] at product
  obtain ⟨old, new, oldRaw, newRaw, oldLength, newLength, same⟩ :=
    shares.rawScores grow consistent summed kind found grows word position
  refine ⟨_, _, score_of_raw found consistent.ancestry smoothing oldRaw,
    score_of_raw product newAncestry shares.smoothing_eq newRaw, by simpa using oldLength,
    by simpa using newLength, fun s below => ?_⟩
  rw [List.getElem?_map, List.getElem?_map, same s below, shares.settings_eq]

end Lexicon

theorem sum_shares {families size : Nat} (some : 0 < size) (cells scores : Nat → α) :
    ∑ j ∈ range (families * size), cells (j / size) / (size : α) * scores (j / size) =
      ∑ j ∈ range families, cells j * scores j := by
  have positive : (size : α) ≠ 0 := Nat.cast_ne_zero.mpr some.ne'
  rw [sum_range_families families some fun j => cells j / (size : α) * scores j, nsmul_eq_mul,
    mul_sum]
  refine sum_congr rfl fun j _ => ?_
  rw [← mul_assoc, mul_div_cancel₀ _ positive]

theorem sum_sum_shares {lefts rights fl fr : Nat} (left : 0 < fl) (right : 0 < fr)
    (cells : Nat → Nat → α) (first second : Nat → α) :
    ∑ j ∈ range (lefts * fl), ∑ k ∈ range (rights * fr),
        cells (j / fl) (k / fr) / ((fl * fr : Nat) : α) * first (j / fl) * second (k / fr) =
      ∑ j ∈ range lefts, ∑ k ∈ range rights, cells j k * first j * second k := by
  calc ∑ j ∈ range (lefts * fl), ∑ k ∈ range (rights * fr),
        cells (j / fl) (k / fr) / ((fl * fr : Nat) : α) * first (j / fl) * second (k / fr)
    _ = ∑ j ∈ range (lefts * fl), ∑ k ∈ range (rights * fr),
        cells (j / fl) (k / fr) * first (j / fl) / (fl : α) / (fr : α) * second (k / fr) := by
        refine sum_congr rfl fun j _ => sum_congr rfl fun k _ => ?_
        rw [Nat.cast_mul, div_div, div_mul_eq_mul_div]
    _ = ∑ j ∈ range (lefts * fl), ∑ k ∈ range rights,
        cells (j / fl) k * first (j / fl) / (fl : α) * second k :=
        sum_congr rfl fun j _ =>
          sum_shares right (fun k => cells (j / fl) k * first (j / fl) / (fl : α)) second
    _ = ∑ k ∈ range rights, ∑ j ∈ range (lefts * fl),
        cells (j / fl) k / (fl : α) * (first (j / fl) * second k) := by
        rw [sum_comm]
        refine sum_congr rfl fun k _ => sum_congr rfl fun j _ => ?_
        ring
    _ = ∑ k ∈ range rights, ∑ j ∈ range lefts, cells j k * (first j * second k) :=
        sum_congr rfl fun k _ =>
          sum_shares left (fun j => cells j k) fun j => first j * second k
    _ = ∑ j ∈ range lefts, ∑ k ∈ range rights, cells j k * first j * second k := by
        rw [sum_comm]
        exact sum_congr rfl fun j _ => sum_congr rfl fun k _ => (mul_assoc _ _ _).symm

variable {root : Nat}

omit [ExactScalar α] in
/-- A node of a tree that has got the sizes of a split model has a family of substates for each
substate that it had. -/
theorem FactorsFit.family (grow : FactorsFit factors substates root) {tree grown : LatentTree α}
    (fits : tree.Fits substates) (grownFits : grown.Fits (products substates factors))
    (same : grown.state = tree.state) :
    ∃ factor, factors[tree.state]? = some factor ∧ 0 < factor ∧
      grown.substates = tree.substates * factor := by
  obtain ⟨factor, grows, -⟩ := grow.factor_of fits.substates_eq
  have product := products_getElem? fits.substates_eq grows
  rw [← same, grownFits.substates_eq] at product
  exact ⟨factor, grows, grow.positive grows, Option.some.inj product⟩

/-- What the cells of a substate make of values that children have by their ancestors is what those of
its own ancestor make of the ancestors' values. -/
theorem RuleTable.Shares.row {new old : RuleTable α} (shares : new.Shares old substates factors)
    {key : Production} {parents lefts rights fp fl fr s : Nat}
    (dimensions : key.dimensions substates = .ok (parents, lefts, rights))
    (factorsOf : key.growthFactors factors = .ok (fp, fl, fr)) (someLeft : 0 < fl)
    (someRight : 0 < fr) (below : s < parents * fp) {f f' g g' : Nat → α}
    (first : ∀ j < lefts * fl, f' j = f (j / fl)) (second : ∀ k < rights * fr, g' k = g (k / fr)) :
    ∑ j ∈ range (lefts * fl), ∑ k ∈ range (rights * fr), new.cell key s j k * f' j * g' k =
      ∑ j ∈ range lefts, ∑ k ∈ range rights, old.cell key (s / fp) j k * f j * g k := by
  rw [← sum_sum_shares someLeft someRight (old.cell key (s / fp)) f g]
  refine sum_congr rfl fun j leftMember => sum_congr rfl fun k rightMember => ?_
  have inLeft := mem_range.mp leftMember
  have inRight := mem_range.mp rightMember
  rw [first j inLeft, second k inRight,
    shares key _ _ _ _ _ _ dimensions factorsOf s below j inLeft k inRight]

/-- What a split model says of words and rules: a substate scores a word as its ancestor did, and
cells are shares. -/
structure Model.Shares (new old : Model α) (factors : List Nat) : Prop where
  rules : new.grammar.rules.Shares old.grammar.rules old.substates factors
  words : ∀ word state position size factor, old.substates[state]? = some size →
    factors[state]? = some factor → ∀ s < size * factor,
      new.lexicon.emission word state position s =
        old.lexicon.emission word state position (s / factor)

/-- A substate at the top of a tree has the inside score of its ancestor, if that is so right
below. -/
theorem Model.Shares.inside {old new : Model α} (shares : new.Shares old factors)
    (grow : FactorsFit factors old.substates root) {tree grown : LatentTree α} {position : Nat}
    (fits : tree.Fits old.substates) (grownFits : grown.Fits (products old.substates factors))
    (same : grown.skeleton = tree.skeleton) (exact : tree.InsideExact old position)
    (grownExact : grown.InsideExact new position) {factor s : Nat}
    (grows : factors[tree.state]? = some factor) (below : s < tree.substates * factor) :
    grown.inside.score s = tree.inside.score (s / factor) := by
  have ancestor {size factor s : Nat} (below : s < size * factor) : s / factor < size :=
    Nat.div_lt_of_lt_mul (Nat.mul_comm size factor ▸ below)
  have inside : s < grown.substates := by
    obtain ⟨_, again, -, size⟩ := grow.family fits grownFits (LatentTree.state_eq_of_skeleton same)
    cases grows.symm.trans again
    exact size ▸ below
  induction tree generalizing grown position s factor with
  | preterminal state word scores =>
    obtain ⟨other, rfl⟩ := LatentTree.skeleton_eq_preterminal same
    exact (grownExact s inside).trans <|
      (shares.words word state position _ factor fits.substates_eq grows s below).trans
        (exact _ (ancestor below)).symm
  | unary state scores child ih =>
    obtain ⟨other, inner, rfl, alike⟩ := LatentTree.skeleton_eq_unary same
    obtain ⟨innerExact, here⟩ := grownExact
    obtain ⟨childExact, there⟩ := exact
    obtain ⟨-, childFits⟩ := LatentTree.fits_unary.mp fits
    obtain ⟨-, innerFits⟩ := LatentTree.fits_unary.mp grownFits
    have states := LatentTree.state_eq_of_skeleton alike
    obtain ⟨fl, growsChild, some, size⟩ := grow.family childFits innerFits states
    let key : Production := .unary state child.state
    have dimensions : key.dimensions old.substates = .ok (_, child.substates, 1) :=
      fits.dimensions_unary
    have factorsOf : key.growthFactors factors = .ok (factor, fl, 1) :=
      Production.dimensions_unary_iff.mpr ⟨grows, growsChild, rfl⟩
    rw [states, size] at here
    have row := shares.rules.row (g := fun _ => 1) dimensions factorsOf some one_pos below
      (fun j left => ih childFits innerFits alike childExact innerExact growsChild left (size ▸ left))
      fun _ _ => rfl
    simp only [sum_range_one, mul_one] at row
    calc (LatentTree.unary state other inner).inside.score s
      _ = ∑ j ∈ range (child.substates * fl),
          new.grammar.rules.cell key s j 0 * inner.inside.score j := here s inside
      _ = ∑ j ∈ range child.substates,
          old.grammar.rules.cell key (s / factor) j 0 * child.inside.score j := row
      _ = (LatentTree.unary state scores child).inside.score (s / factor) :=
          (there _ (ancestor below)).symm
  | binary state scores left right leftIh rightIh =>
    obtain ⟨other, innerLeft, innerRight, rfl, leftAlike, rightAlike⟩ :=
      LatentTree.skeleton_eq_binary same
    obtain ⟨innerLeftExact, innerRightExact, here⟩ := grownExact
    obtain ⟨leftExact, rightExact, there⟩ := exact
    obtain ⟨-, leftFits, rightFits⟩ := LatentTree.fits_binary.mp fits
    obtain ⟨-, innerLeftFits, innerRightFits⟩ := LatentTree.fits_binary.mp grownFits
    have leftState := LatentTree.state_eq_of_skeleton leftAlike
    have rightState := LatentTree.state_eq_of_skeleton rightAlike
    rw [LatentTree.wordCount_eq_of_skeleton leftAlike] at innerRightExact
    obtain ⟨fl, growsLeft, someLeft, leftSize⟩ := grow.family leftFits innerLeftFits leftState
    obtain ⟨fr, growsRight, someRight, rightSize⟩ :=
      grow.family rightFits innerRightFits rightState
    rw [leftState, rightState, leftSize, rightSize] at here
    let key : Production := .binary state left.state right.state
    have dimensions : key.dimensions old.substates = .ok (_, left.substates, right.substates) :=
      fits.dimensions_binary
    have factorsOf : key.growthFactors factors = .ok (factor, fl, fr) :=
      Production.dimensions_binary_iff.mpr ⟨grows, growsLeft, growsRight⟩
    calc (LatentTree.binary state other innerLeft innerRight).inside.score s
      _ = ∑ j ∈ range (left.substates * fl), ∑ k ∈ range (right.substates * fr),
          new.grammar.rules.cell key s j k * innerLeft.inside.score j
            * innerRight.inside.score k := here s inside
      _ = ∑ j ∈ range left.substates, ∑ k ∈ range right.substates,
          old.grammar.rules.cell key (s / factor) j k * left.inside.score j
            * right.inside.score k :=
          shares.rules.row dimensions factorsOf someLeft someRight below
            (fun j inLeft => leftIh leftFits innerLeftFits leftAlike leftExact innerLeftExact
              growsLeft inLeft (leftSize ▸ inLeft))
            (fun k inRight => rightIh rightFits innerRightFits rightAlike rightExact
              innerRightExact growsRight inRight (rightSize ▸ inRight))
      _ = (LatentTree.binary state scores left right).inside.score (s / factor) :=
          (there _ (ancestor below)).symm

/-- Two scored trees of which the second has a family of substates for each substate of the first:
at every node, each substate has the inside score of its ancestor. -/
def LatentTree.Descends (factors : List Nat) (grown tree : LatentTree α) : Prop :=
  ∀ (index : Nat) (node : LatentTree α), tree.subtrees[index]? = some node →
    ∃ other factor, grown.subtrees[index]? = some other ∧ other.skeleton = node.skeleton ∧
      factors[node.state]? = some factor ∧ other.substates = node.substates * factor ∧
      ∀ s < other.substates, other.inside.score s = node.inside.score (s / factor)

/-- The substates of the new model come in families, one for each substate of the old one, and
nothing that the new model says of words and trees tells the members of a family apart. Any tree can
be resized for the new model, if there is room for its scores; however it got its sizes, the new model
gives its nodes the scores, and the tree the mass, that the old one does. -/
structure Model.Refines (new old : Model α) (factors : List Nat) : Prop where
  substates_eq : new.substates = products old.substates factors
  words : ∀ word state position size factor, old.substates[state]? = some size →
    factors[state]? = some factor → ∃ scores newScores,
      old.lexicon.score word state position = .ok scores ∧
      new.lexicon.score word state position = .ok newScores ∧ scores.length = size ∧
      newScores.length = size * factor ∧ ∀ s < size * factor, newScores[s]? = scores[s / factor]?
  resizes : ∀ tree : LatentTree α, tree.Fits old.substates →
    Delivers Overflow (fun grown => grown.Fits new.substates ∧ grown.skeleton = tree.skeleton)
      (tree.resize new.substates)
  trees : ∀ tree grown : LatentTree α, tree.Fits old.substates → grown.Fits new.substates →
    grown.skeleton = tree.skeleton → ∃ scored rescored, tree.computeInside old = .ok scored ∧
      grown.computeInside new = .ok rescored ∧ rescored.Descends factors scored ∧
      (0 < tree.substates → ∃ mass newMass, scored.mass = .ok mass ∧ rescored.mass = .ok newMass ∧
        newMass * Scalar.scaleFactor rescored.inside.scale =
          mass * Scalar.scaleFactor scored.inside.scale)

/-- Scored trees descend node by node. -/
theorem Model.Shares.descends {old new : Model α} (shares : new.Shares old factors)
    (grow : FactorsFit factors old.substates root) {tree grown : LatentTree α}
    (fits : tree.Fits old.substates) (grownFits : grown.Fits (products old.substates factors))
    (same : grown.skeleton = tree.skeleton) (exact : tree.InsideExact old 0)
    (grownExact : grown.InsideExact new 0) : grown.Descends factors tree := by
  intro index node found
  obtain ⟨other, there, alike, before⟩ := LatentTree.subtree_of_skeleton same found
  have nodeFits := fits.of_mem (List.mem_of_getElem? found)
  have otherFits := grownFits.of_mem (List.mem_of_getElem? there)
  obtain ⟨factor, grows, -, size⟩ :=
    grow.family nodeFits otherFits (LatentTree.state_eq_of_skeleton alike)
  have nodeExact := exact.at_ (LatentTree.at_of_getElem? found)
  have otherExact := grownExact.at_ (LatentTree.at_of_getElem? there)
  rw [before] at otherExact
  refine ⟨other, factor, there, alike, grows, size, fun s below => ?_⟩
  exact shares.inside grow nodeFits otherFits alike nodeExact otherExact grows (size ▸ below)

theorem Model.Shares.tree {old new : Model α} (shares : new.Shares old factors)
    (grow : FactorsFit factors old.substates root) {tree grown scored rescored : LatentTree α}
    (fits : tree.Fits old.substates) (grownFits : grown.Fits (products old.substates factors))
    (same : grown.skeleton = tree.skeleton) (alike : scored.Alike tree)
    (exact : scored.InsideExact old 0) (grownAlike : rescored.Alike grown)
    (grownExact : rescored.InsideExact new 0) :
    rescored.Descends factors scored ∧
      (0 < tree.substates → ∃ mass newMass, scored.mass = .ok mass ∧ rescored.mass = .ok newMass ∧
        newMass * Scalar.scaleFactor rescored.inside.scale =
          mass * Scalar.scaleFactor scored.inside.scale) := by
  have kept : rescored.skeleton = scored.skeleton := by
    rw [grownAlike.skeleton_eq, alike.skeleton_eq, same]
  have scoredFits := alike.fits fits
  have rescoredFits := grownAlike.fits grownFits
  refine ⟨shares.descends grow scoredFits rescoredFits kept exact grownExact, fun some => ?_⟩
  rw [← alike.substates_eq] at some
  obtain ⟨factor, growsTop, positive, size⟩ :=
    grow.family scoredFits rescoredFits (LatentTree.state_eq_of_skeleton kept)
  have grownSome : 0 < rescored.substates := size ▸ Nat.mul_pos some positive
  have top := shares.inside grow scoredFits rescoredFits kept exact grownExact growsTop
    (size ▸ grownSome)
  rw [Nat.zero_div] at top
  exact ⟨_, _, LatentTree.mass_eq_of_nonempty some, LatentTree.mass_eq_of_nonempty grownSome, top⟩

/-- Splitting without noise refines a model, whatever categories are split: grammar and lexicon fit
their substates and share them, the lexicon estimates a tag's share of a word and is not smoothed,
and its tag counts are those of the words. There may only be no room for the split. -/
theorem Model.split_refines {model : Model α}
    (rules : model.grammar.rules.Fits model.substates)
    (consistent : model.lexicon.Consistent)
    (substates : model.lexicon.substates = model.substates)
    (root : model.lexicon.root = model.grammar.root)
    (kind : model.lexicon.settings.kind = .sophisticated)
    (smoothing : model.lexicon.smoothing = .none)
    (summed : model.lexicon.tables.Summed model.lexicon.substates)
    (counts : List Nat) (unbounded : Bool) (stream : γ) :
    Delivers Overflow (fun result => ∃ factors,
        growthFactors model.substates model.grammar.root counts unbounded = .ok factors ∧
          result.1.Refines model factors)
      (model.split 0 0 counts unbounded stream) := by
  refine (Grammar.split_delivers rules 0 stream overflow_overflow).bind_ok
    fun (grammar, later) grammarSplit result => ?_
  obtain ⟨factors, grows, grow, grown, newSubstates, -, -, newRules⟩ := result
  have lexiconGrows := grows
  have lexiconGrow := grow
  rw [← root, show model.grammar.substates = _ from substates.symm] at lexiconGrows lexiconGrow
  rw [show model.grammar.substates = _ from substates.symm] at grown
  refine (Lexicon.split_delivers consistent.tables lexiconGrows lexiconGrow grown 0
    later overflow_overflow).bind_ok fun (lexicon, last) lexiconSplit result => ?_
  obtain ⟨lexiconSubstates, -, lexiconAncestry, lexiconTables⟩ := result
  dsimp only at newSubstates newRules lexiconSubstates lexiconAncestry lexiconTables
  let split : Model α := ⟨grammar, lexicon⟩
  have shared := Lexicon.split_shares consistent.tables lexiconGrows lexiconSplit
  have words (word : String) (state position size factor : Nat)
      (found : model.substates[state]? = some size) (grows : factors[state]? = some factor) :=
    shared.score lexiconGrow consistent summed kind smoothing (substates ▸ found) grows word
      position
  have answers : lexicon.Consistent := by
    refine ⟨?_, lexiconTables⟩
    rw [lexiconAncestry, lexiconSubstates]
    exact lexiconGrow.splitAncestries consistent.ancestry
  have splitSubstates : lexicon.substates = split.substates := by
    rw [lexiconSubstates, substates]
    exact newSubstates.symm
  have shares : split.Shares model factors := by
    refine ⟨Grammar.split_shares rules grows grammarSplit, ?_⟩
    intro word state position size factor found grows s below
    obtain ⟨old, new, oldScores, newScores, -, -, same⟩ :=
      words word state position size factor found grows
    simp only [split, Lexicon.emission, oldScores, newScores, same s below]
  refine ⟨factors, grows, newSubstates, words, fun tree fits => ?_, ?_⟩
  · have categories : model.substates.length = split.substates.length := by
      rw [show split.substates = _ from newSubstates]
      exact grow.length_products.symm
    exact (LatentTree.resize_delivers fits categories overflow_overflow).mono_ok
      fun resized success fits => ⟨fits, LatentTree.resize_skeleton success⟩
  · intro tree grown fits grownFits same
    obtain ⟨scored, success, alike, exact⟩ :=
      LatentTree.exists_computeInside rules consistent substates fits
    obtain ⟨rescored, grownSuccess, grownAlike, grownExact⟩ :=
      LatentTree.exists_computeInside newRules answers splitSubstates grownFits
    rw [show split.substates = _ from newSubstates] at grownFits
    exact ⟨scored, rescored, success, grownSuccess,
      shares.tree grow fits grownFits same alike exact grownAlike grownExact⟩

/-- A model whose lexicon estimates a tag's share of a word. -/
def sampleEstimator : Model Rat :=
  { sampleModel with
    lexicon := { sampleModel.lexicon with settings := ⟨.sophisticated, 1 / 2, 1 / 10, 10, 0⟩ } }

theorem isOk_split_sampleEstimator :
    (sampleEstimator.split 0 0 [1, 4] false ()).isOk = true := by
  decide +kernel

theorem sampleEstimator_split_refines :
    ∃ split later, sampleEstimator.split 0 0 [1, 4] false () = .ok (split, later) ∧
      split.substates = [1, 4] ∧ split.Refines sampleEstimator [1, 2] := by
  have rules : sampleEstimator.grammar.rules.Fits sampleEstimator.substates := sampleModel_rules_fit
  have refines := Model.split_refines rules
    ⟨sampleModel_lexicon_consistent.ancestry, sampleModel_lexicon_consistent.tables⟩ rfl rfl rfl rfl
    ⟨by decide +kernel, by decide +kernel⟩ [1, 4] false ()
  have succeeds := isOk_split_sampleEstimator
  cases done : sampleEstimator.split 0 0 [1, 4] false () with
  | error fault => simp [done, Except.isOk, Except.toBool] at succeeds
  | ok result =>
    obtain ⟨split, later⟩ := result
    rw [done] at refines
    obtain ⟨factors, grows, refined⟩ := refines
    obtain rfl : [1, 2] = factors := Except.ok.inj (Eq.trans (by decide +kernel) grows)
    exact ⟨split, later, rfl, refined.substates_eq.trans rfl, refined⟩

end LatentGrammar
