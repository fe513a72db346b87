import LatentGrammar.Proofs.Bookkeeping.Sums
import LatentGrammar.Proofs.Reestimation.Normalize

namespace LatentGrammar

variable {α : Type} [ExactScalar α] {whole : Prop} {size : Nat}

/-- How much was counted of a word, over all substates of a category. -/
def NameTable.countOf (word : String) (words : NameTable (List α)) : α :=
  ((words.get? word).getD []).sum

/-- How much was counted of a word, over all categories and their substates. -/
def wordCount (tables : List (NameTable (List α))) (word : String) : α :=
  (tables.map (NameTable.countOf word)).sum

theorem wordCount_append (firsts seconds : List (NameTable (List α))) (word : String) :
    wordCount (firsts ++ seconds) word = wordCount firsts word + wordCount seconds word := by
  rw [wordCount, List.map_append, List.sum_append]
  rfl

theorem wordCount_of_empty {tables : List (NameTable (List α))}
    (empty : ∀ words ∈ tables, words = []) (word : String) : wordCount tables word = 0 := by
  apply List.sum_eq_zero
  intro count counted
  obtain ⟨words, member, rfl⟩ := List.mem_map.mp counted
  rw [empty words member]
  rfl

/-- The accounts agree. That every token of a word has been given out over the substates of its tags
is only said where the counts are `whole`. -/
structure EmissionTables.Balanced (whole : Prop) (tables : EmissionTables α) : Prop where
  /-- A tag has as much of its tokens as its words have together. -/
  tags : List.Forall₂ (fun tags words => tags.sum = NameTable.total List.sum words)
    tables.tagCounts tables.wordCounts
  /-- A substate of a tag has as much of the unseen tokens as the signatures have of it. -/
  unseenTags : List.Forall₂
    (fun tags signatures => ∀ s, entry tags s = NameTable.total (entry · s) signatures)
    tables.unseenTagCounts tables.unseenSignatureCounts
  totalTokens : tables.totalTokens = tables.wordTotals.total id
  unseenTotal : tables.unseenTotal = tables.unseenSignatureTotals.total id
  unseen_le : tables.unseenTotal ≤ tables.totalTokens
  known : ∀ words ∈ tables.wordCounts, ∀ word, words.contains word = true →
    tables.wordTotals.contains word = true
  words : whole → ∀ word,
    wordCount tables.wordCounts word = (tables.wordTotals.get? word).getD 0

namespace NameTable

theorem contains_alter {β : Type} (table : NameTable β) (name other : String) (default : β)
    (f : β → β) : (table.alter name default f).contains other = true ↔
      other = name ∨ table.contains other = true := by
  rw [contains, get?_alter]
  by_cases same : other = name
  · simp [same]
  · simp [same, contains]

theorem countOf_addNamed {table : NameTable (List α)} (fits : table.Fits size) (name : String)
    {weights : List α} (sized : HasSize weights size) (other : String) :
    (EmissionTables.addNamed name weights table).countOf other =
      table.countOf other + if other = name then weights.sum else 0 := by
  rw [countOf, countOf, EmissionTables.addNamed, get?_alter]
  by_cases same : other = name
  · subst same
    rw [if_pos rfl, if_pos rfl, Option.getD_some]
    cases found : table.get? other with
    | none => simp [sum_addInto]
    | some counts => exact sum_addInto (sized.trans (fits.get? found).symm)
  · rw [if_neg same, if_neg same, add_zero]

theorem getD_get?_increment (table : NameTable α) (name other : String) :
    ((EmissionTables.increment name table).get? other).getD 0 =
      (table.get? other).getD 0 + if other = name then 1 else 0 := by
  rw [EmissionTables.increment, get?_alter]
  by_cases same : other = name
  · subst same
    rw [if_pos rfl, if_pos rfl, Option.getD_some]
  · rw [if_neg same, if_neg same, add_zero]

end NameTable

namespace NameTable

/-- The same names in the same order, with vectors of the same sums. -/
def SameSums (new old : NameTable (List α)) : Prop :=
  List.Forall₂ (fun first second : String × List α =>
    first.1 = second.1 ∧ first.2.sum = second.2.sum) new old

variable {new old : NameTable (List α)}

theorem contains_iff {β : Type} {table : NameTable β} {name : String} :
    table.contains name = true ↔ name ∈ table.map Prod.fst := by
  rw [contains, get?]
  induction table with
  | nil => simp
  | cons named rest ih =>
    by_cases same : name = named.1
    · simp [same]
    · rw [List.lookup_cons, beq_false_of_ne same, List.map_cons, List.mem_cons, ← ih]
      simp [same]

theorem SameSums.names (same : new.SameSums old) : new.map Prod.fst = old.map Prod.fst := by
  induction same with
  | nil => rfl
  | cons here _ ih => rw [List.map_cons, List.map_cons, here.1, ih]

theorem SameSums.total (same : new.SameSums old) : new.total List.sum = old.total List.sum := by
  unfold NameTable.total
  induction same with
  | nil => rfl
  | cons here _ ih => rw [List.map_cons, List.map_cons, List.sum_cons, List.sum_cons, here.2, ih]

theorem SameSums.countOf (same : new.SameSums old) (word : String) :
    new.countOf word = old.countOf word := by
  unfold NameTable.countOf
  induction same with
  | nil => rfl
  | cons here _ ih =>
    rw [get?_cons, get?_cons, here.1]
    split
    · exact here.2
    · exact ih

end NameTable

theorem wordCount_eq {new old : List (NameTable (List α))}
    (same : List.Forall₂ NameTable.SameSums new old) (word : String) :
    wordCount new word = wordCount old word := by
  unfold wordCount
  induction same with
  | nil => rfl
  | cons here _ ih =>
    rw [List.map_cons, List.map_cons, List.sum_cons, List.sum_cons, here.countOf word, ih]

namespace EmissionTables.Balanced

variable {tables : EmissionTables α} {state : Nat} {weights : List α}

theorem token (balanced : tables.Balanced whole) {words : NameTable (List α)} {tags : List α}
    (foundWords : tables.wordCounts[state]? = some words)
    (foundTags : tables.tagCounts[state]? = some tags) (fits : words.Fits size)
    (tagsSized : HasSize tags size) (sized : HasSize weights size)
    (one : whole → weights.sum = 1) (word : String) :
    Balanced whole { tables with
      wordCounts := tables.wordCounts.set state (addNamed word weights words)
      tagCounts := tables.tagCounts.set state (Scalar.addInto tags weights)
      wordTotals := increment word tables.wordTotals
      totalTokens := tables.totalTokens + 1 } where
  tags := by
    refine forall₂_set_both balanced.tags state ?_
    rw [sum_addInto (sized.trans tagsSized.symm), additive_sum.total_addNamed fits word sized,
      relation_of_forall₂ balanced.tags foundTags foundWords]
  unseenTags := balanced.unseenTags
  totalTokens := by rw [total_increment, balanced.totalTokens]
  unseenTotal := balanced.unseenTotal
  unseen_le := balanced.unseen_le.trans (le_add_of_nonneg_right zero_le_one)
  known := by
    intro table member other present
    refine (NameTable.contains_alter ..).mpr ?_
    rcases List.mem_or_eq_of_mem_set member with old | rfl
    · exact .inr (balanced.known table old other present)
    · refine ((NameTable.contains_alter ..).mp present).imp_right fun before => ?_
      exact balanced.known words (List.mem_of_getElem? foundWords) other before
  words := by
    intro all other
    have grown := sum_map_set foundWords (NameTable.countOf_addNamed fits word sized other)
    rw [one all] at grown
    rw [wordCount, grown, NameTable.getD_get?_increment, ← balanced.words all other]
    rfl

/-- A token that also counts as unseen is added to the accounts of its signature, too. -/
theorem unseenToken (balanced : tables.Balanced whole) {signatures : NameTable (List α)}
    {tags : List α} (foundSignatures : tables.unseenSignatureCounts[state]? = some signatures)
    (foundTags : tables.unseenTagCounts[state]? = some tags) (fits : signatures.Fits size)
    (tagsSized : HasSize tags size) (sized : HasSize weights size) (sign : String)
    (below : tables.unseenTotal + 1 ≤ tables.totalTokens) :
    Balanced whole { tables with
      unseenSignatureCounts :=
        tables.unseenSignatureCounts.set state (addNamed sign weights signatures)
      unseenTagCounts := tables.unseenTagCounts.set state (Scalar.addInto tags weights)
      unseenSignatureTotals := increment sign tables.unseenSignatureTotals
      unseenTotal := tables.unseenTotal + 1 } where
  tags := balanced.tags
  unseenTags := by
    refine forall₂_set_both balanced.unseenTags state fun s => ?_
    rw [entry_addInto (sized.trans tagsSized.symm),
      (additive_entry s).total_addNamed fits sign sized,
      relation_of_forall₂ balanced.unseenTags foundTags foundSignatures s]
  totalTokens := balanced.totalTokens
  unseenTotal := by rw [total_increment, balanced.unseenTotal]
  unseen_le := below
  known := balanced.known
  words := balanced.words

theorem moved (balanced : tables.Balanced whole) {wordCounts : List (NameTable (List α))}
    (same : List.Forall₂ NameTable.SameSums wordCounts tables.wordCounts) :
    Balanced whole { tables with wordCounts } where
  tags := by
    refine forall₂_compose balanced.tags same.flip fun tags old new sums sameSums => ?_
    rw [sums, NameTable.SameSums.total sameSums]
  unseenTags := balanced.unseenTags
  totalTokens := balanced.totalTokens
  unseenTotal := balanced.unseenTotal
  unseen_le := balanced.unseen_le
  known := by
    intro words member word present
    obtain ⟨old, before, sameSums⟩ := exists_mem_of_forall₂ same member
    rw [NameTable.contains_iff, sameSums.names, ← NameTable.contains_iff] at present
    exact balanced.known old before word present
  words := by
    intro all word
    rw [wordCount_eq same, balanced.words all word]

end EmissionTables.Balanced

/-- Every vector of weights that the tree is counted with sums to one. -/
def LatentTree.SharesOne (tree : LatentTree α) : Prop :=
  ∀ mass, tree.mass = .ok mass → 0 < mass →
    ∀ node ∈ tree.preterminals, (node.posteriorIn mass tree.inside.scale).sum = 1

namespace EmissionCounts

/-- Counts in a frame whose accounts agree. -/
structure BalancedIn (counts : EmissionCounts α) (whole : Prop) (frame : LexiconFrame α) :
    Prop where
  inFrame : counts.InFrame frame
  tables : counts.tables.Balanced whole

variable {counts : EmissionCounts α} {frame : LexiconFrame α} {policy : UnseenPolicy α}

theorem add_balanced (balanced : counts.BalancedIn whole frame) {state : Nat}
    (found : frame.substates[state]? = some size) {weights : List α} (sized : HasSize weights size)
    (one : whole → weights.sum = 1) (word : String) (position : Nat) :
    Delivers Any (·.BalancedIn whole frame) (counts.add policy state word position weights) := by
  obtain ⟨inFrame, balanced⟩ := balanced
  have accounts : Delivers Any (·.tables.Balanced whole)
      (counts.add policy state word position weights) := by
    have fits := inFrame.fits
    obtain ⟨words, foundWords, wordsFit⟩ := exists_of_forall₂ fits.wordCounts found
    obtain ⟨tags, foundTags, tagsSized⟩ := exists_of_forall₂ fits.tagCounts found
    obtain ⟨signs, foundSigns, signsFit⟩ := exists_of_forall₂ fits.unseenSignatureCounts found
    obtain ⟨unseen, foundUnseen, unseenSized⟩ := exists_of_forall₂ fits.unseenTagCounts found
    have counted := balanced.token foundWords foundTags wordsFit tagsSized sized one word
    unfold add
    simp only [fetch_eq_ok_iff.mpr foundWords, fetch_eq_ok_iff.mpr foundTags,
      fetch_eq_ok_iff.mpr foundSigns, fetch_eq_ok_iff.mpr foundUnseen]
    refine Delivers.ite (fun _ => ?_) fun _ => counted
    have below : counts.tables.unseenTotal + 1 ≤ counts.tables.totalTokens + 1 :=
      add_le_add_left balanced.unseen_le 1
    exact counted.unseenToken foundSigns foundUnseen signsFit unseenSized sized _ below
  apply (add_delivers inFrame found sized word position).mono_ok
  intro next success kept
  exact ⟨kept, accounts.of_ok success⟩

theorem countScored_balanced (balanced : counts.BalancedIn whole frame) {tree : LatentTree α}
    (fits : tree.Fits frame.substates) (ones : whole → tree.SharesOne) :
    Delivers Any (·.BalancedIn whole frame) (counts.countScored policy tree) := by
  refine countScored_keeps (delivers_any _) balanced ?_
  intro mass massed positive counts state word scores position leaf balanced
  have nodeFits := fits_of_leaf fits leaf
  have one (all : whole) := ones all mass massed (lt_of_not_ge positive) _ leaf
  have sized := LatentTree.length_posteriorIn nodeFits mass tree.inside.scale
  exact add_balanced balanced nodeFits.substates_eq sized one word position

theorem sum_proportions (weights : List α) (inhabited : 0 < size) :
    (proportions size weights).sum = 1 := by
  unfold proportions
  simp only [Scalar.sum_eq]
  split
  · rename_i positive
    simp only [div_eq_mul_inv]
    rw [List.sum_map_mul_right]
    simpa using mul_inv_cancel₀ positive.ne'
  · have nonzero : (size : α) ≠ 0 := Nat.cast_ne_zero.mpr inhabited.ne'
    rw [List.sum_replicate, nsmul_eq_mul]
    exact mul_one_div_cancel nonzero

/-- Without scores, weights sum to one wherever there are substates at all. -/
theorem countUnscored_balanced {γ : Type} [Draws γ α] {reference : Option (Lexicon α)}
    (balanced : counts.BalancedIn whole frame) {tree : LatentTree α}
    (fits : tree.Fits frame.substates)
    (inhabited : whole → ∀ node ∈ tree.preterminals, 0 < node.substates)
    (like : ∀ lexicon, reference = some lexicon → lexicon.substates = frame.substates)
    (randomness : α) (stream : γ) :
    Delivers Any (·.1.BalancedIn whole frame)
      (counts.countUnscored policy randomness reference tree stream) := by
  have answers (lexicon : Lexicon α) (same : reference = some lexicon) :
      lexicon.substates = frame.substates ∧ lexicon.Answers Any :=
    ⟨like lexicon same, lexicon.answers_any⟩
  have known (counts : EmissionCounts α) (balanced : counts.BalancedIn whole frame) :
      counts.substates = frame.substates := congrArg (·.substates) balanced.inFrame.frame_eq
  refine countUnscored_keeps fits answers known balanced ?_ randomness stream
  intro counts state word scores position weights leaf balanced sized
  have one (all : whole) := sum_proportions weights (inhabited all _ leaf)
  exact add_balanced balanced (fits_of_leaf fits leaf).substates_eq (hasSize_proportions sized) one
    word position

theorem sum_spread (total unseenTotal : α) {counts unseen : List α}
    (same : unseen.length = counts.length) :
    (spread total unseenTotal counts unseen).sum = total * unseen.sum / unseenTotal := by
  induction counts generalizing unseen with
  | nil =>
    obtain rfl := List.eq_nil_of_length_eq_zero same
    simp [spread]
  | cons count counts ih =>
    cases unseen with
    | nil => simp at same
    | cons first rest =>
      rw [spread, List.sum_cons, ih (by simpa using same), List.sum_cons, mul_add, add_div]

theorem tieWords_sameSums {words : NameTable (List α)} {unseen : List α} (fits : words.Fits size)
    (sized : HasSize unseen size) (wordTotals : NameTable α) (rare : α) :
    (tieWords wordTotals rare unseen words).SameSums words := by
  unfold tieWords
  simp only [Scalar.sum_eq]
  split
  · exact List.forall₂_same.mpr fun _ _ => ⟨rfl, rfl⟩
  · rename_i positive
    have nonzero : unseen.sum ≠ 0 := (lt_of_not_ge positive).ne'
    refine List.forall₂_map_left_iff.mpr (List.forall₂_same.mpr fun (word, counts) member => ?_)
    have same : unseen.length = counts.length := sized.trans (fits (word, counts) member).symm
    dsimp only
    split
    · exact ⟨rfl, rfl⟩
    · refine ⟨rfl, ?_⟩
      rw [sum_spread _ _ same, mul_div_assoc, div_self nonzero, mul_one]

theorem tieRare_balanced (balanced : counts.BalancedIn whole frame) (rare : α) :
    Delivers Any (·.BalancedIn whole frame) (counts.tieRare rare) := by
  obtain ⟨inFrame, balanced⟩ := balanced
  have replaced : Delivers Any (fun next => ∃ wordCounts,
      List.Forall₂ NameTable.SameSums wordCounts counts.tables.wordCounts ∧
        next = { counts with tables := { counts.tables with wordCounts } }) (counts.tieRare rare) :=
    tieRare_replaces inFrame.fits rare fun _ _ _ fits sized => tieWords_sameSums fits sized _ _
  apply (tieRare_delivers inFrame rare).mono_ok
  intro next success kept
  obtain ⟨wordCounts, same, rfl⟩ := replaced.of_ok success
  exact ⟨kept, balanced.moved same⟩

theorem empty_balanced (substates : List Nat) :
    Delivers Any (fun tables : EmissionTables α => tables.Balanced whole)
      (EmissionTables.empty substates) := by
  have rows : Delivers Any (List.Forall₂ (fun size row => row = List.replicate size (0 : α)) substates)
      (substates.mapM (fill · 0)) :=
    Delivers.mapM fun size _ => delivers_fill_or_overflow fun _ => any_overflow
  apply rows.bind
  intro tagCounts zeros
  have related {relation : List α → NameTable (List α) → Prop}
      (holds : ∀ size, relation (List.replicate size 0) []) :
      List.Forall₂ relation tagCounts (substates.map fun _ => []) := by
    refine List.forall₂_map_right_iff.mpr (zeros.flip.imp ?_)
    rintro _ size rfl
    exact holds size
  exact {
    tags := related fun size => additive_sum.zeros size
    unseenTags := related fun size s => (additive_entry s).zeros size
    totalTokens := rfl
    unseenTotal := rfl
    unseen_le := le_refl 0
    known := by
      intro words member word present
      obtain ⟨_, -, rfl⟩ := List.mem_map.mp member
      cases present
    words := by
      intro _ word
      refine wordCount_of_empty (fun words member => ?_) word
      obtain ⟨size, -, rfl⟩ := List.mem_map.mp member
      rfl }

theorem after_balanced (lexicon : Lexicon α) :
    Delivers Any (·.BalancedIn whole lexicon.toLexiconFrame) (after lexicon) := by
  have accounts : Delivers Any (·.tables.Balanced whole) (after lexicon) :=
    (empty_balanced lexicon.substates).bind fun _ balanced => balanced
  apply (after_delivers lexicon any_overflow).mono_ok
  intro counts success inFrame
  exact ⟨inFrame, accounts.of_ok success⟩

theorem start_balanced (substates : List Nat) (root : Nat) (settings : LexiconSettings α) :
    Delivers Any (fun counts => counts.BalancedIn whole counts.toLexiconFrame)
      (start substates root settings) := by
  have accounts : Delivers Any (fun tables : EmissionTables α => tables.Balanced whole)
      (EmissionTables.empty substates) := empty_balanced substates
  refine (delivers_any _).bind fun ancestry _ => accounts.bind_ok fun tables success balanced => ?_
  exact ⟨⟨rfl, (empty_delivers substates any_overflow).of_ok success⟩, balanced⟩

end EmissionCounts

end LatentGrammar
