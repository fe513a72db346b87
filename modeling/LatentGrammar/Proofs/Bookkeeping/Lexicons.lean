import LatentGrammar.Proofs.Bookkeeping.Balance
import LatentGrammar.Proofs.Consistency.Merge
import LatentGrammar.Proofs.Splitting.Refinement

namespace LatentGrammar

variable {α γ : Type} [ExactScalar α] [Draws γ α] {whole : Prop} {size : Nat}

theorem forall₂_columnSums {relation : List α → NameTable (List α) → Prop}
    (holds : ∀ size table, NameTable.Fits table size →
      relation (EmissionTables.columnSums size table) table)
    {tables : List (NameTable (List α))} {substates : List Nat}
    (fits : List.Forall₂ NameTable.Fits tables substates) :
    List.Forall₂ relation ((substates.zip tables).map fun entry =>
      EmissionTables.columnSums entry.1 entry.2) tables := by
  induction fits with
  | nil => exact .nil
  | cons here _ ih => exact .cons (holds _ _ here) ih

/-- Tables of the same words, with the same counts where every token is given out, balance with the
totals of the old ones. -/
theorem EmissionTables.Balanced.retable {tables : EmissionTables α}
    (balanced : tables.Balanced whole) {words signatures : List (NameTable (List α))}
    {substates : List Nat} (wordsFit : List.Forall₂ NameTable.Fits words substates)
    (signaturesFit : List.Forall₂ NameTable.Fits signatures substates)
    (known : ∀ table ∈ words, ∀ word, table.contains word = true →
      ∃ old ∈ tables.wordCounts, old.contains word = true)
    (counted : whole → ∀ word, wordCount words word = wordCount tables.wordCounts word) :
    (tables.retable substates words signatures).Balanced whole where
  tags := forall₂_columnSums (fun _ _ fits => additive_sum.columnSums fits) wordsFit
  unseenTags :=
    forall₂_columnSums (fun _ _ fits s => (additive_entry s).columnSums fits) signaturesFit
  totalTokens := balanced.totalTokens
  unseenTotal := balanced.unseenTotal
  unseen_le := balanced.unseen_le
  known := by
    intro table member word present
    obtain ⟨old, before, again⟩ := known table member word present
    exact balanced.known old before word again
  words := by
    intro all word
    exact (counted all word).trans (balanced.words all word)

/-- A lexicon whose tables cover its substates and whose accounts agree. -/
structure Lexicon.Balanced (whole : Prop) (lexicon : Lexicon α) : Prop where
  fits : lexicon.tables.Fits lexicon.substates
  tables : lexicon.tables.Balanced whole

theorem splitNames_names (factor : Nat) (randomness : α) (table : NameTable (List α))
    (stream : γ) :
    (splitNames factor randomness table stream).1.map Prod.fst = table.map Prod.fst := by
  induction table generalizing stream with
  | nil => rfl
  | cons named rest ih => exact congrArg (named.1 :: ·) (ih _)

theorem splitTables_names {tables : List (NameTable (List α))} {factors : List Nat}
    (length : factors.length = tables.length) (randomness : α) (stream : γ) :
    List.Forall₂ (fun new old : NameTable (List α) => new.map Prod.fst = old.map Prod.fst)
      (splitTables randomness (factors.zip tables) stream).1 tables := by
  induction tables generalizing factors stream with
  | nil =>
    obtain rfl := List.eq_nil_of_length_eq_zero length
    exact .nil
  | cons table rest ih =>
    cases factors with
    | nil => cases length
    | cons factor factors =>
      exact .cons (splitNames_names factor randomness table stream) (ih (Nat.succ.inj length) _)

theorem sum_shareCounts {factor : Nat} (positive : 0 < factor) (counts : List α) :
    (shareCounts factor counts).sum = counts.sum := by
  induction counts with
  | nil => rfl
  | cons count rest ih =>
    have nonzero : (factor : α) ≠ 0 := Nat.cast_ne_zero.mpr positive.ne'
    rw [shareCounts_cons, List.sum_append, ih, List.sum_replicate, nsmul_eq_mul, List.sum_cons]
    exact congrArg (· + rest.sum) (mul_div_cancel₀ count nonzero)

theorem splitTables_sameSums {tables : List (NameTable (List α))} {factors : List Nat}
    (length : factors.length = tables.length) (positive : ∀ factor ∈ factors, 0 < factor)
    (stream : γ) :
    List.Forall₂ NameTable.SameSums (splitTables (0 : α) (factors.zip tables) stream).1 tables := by
  rw [splitTables_zero]
  induction tables generalizing factors with
  | nil =>
    obtain rfl := List.eq_nil_of_length_eq_zero length
    exact .nil
  | cons table rest ih =>
    cases factors with
    | nil => cases length
    | cons factor factors =>
      obtain ⟨here, later⟩ := List.forall_mem_cons.mp positive
      refine .cons ?_ (ih (Nat.succ.inj length) later)
      exact List.forall₂_map_left_iff.mpr
        (List.forall₂_same.mpr fun named _ => ⟨rfl, sum_shareCounts here named.2⟩)

/-- Noise changes the counts of a word; without any, they are only given out anew. -/
theorem Lexicon.Balanced.split {lexicon : Lexicon α} (balanced : lexicon.Balanced whole)
    {randomness : α} (noiseless : whole → randomness = 0) (counts : List Nat) (unbounded : Bool)
    (stream : γ) :
    Delivers Any (·.1.Balanced whole) (lexicon.split randomness counts unbounded stream) := by
  obtain ⟨fits, tables⟩ := balanced
  refine (growthFactors_delivers lexicon.substates lexicon.root counts unbounded
    any_overflow).bind fun factors grow => ?_
  refine (multiply_delivers lexicon.substates factors any_overflow).bind ?_
  rintro _ rfl
  refine (delivers_any _).bind fun _ _ => ?_
  have wordsLength := fits.wordCounts.length_eq
  have signaturesLength := fits.unseenSignatureCounts.length_eq
  rw [fitTables_eq (wordsLength.trans grow.length_products.symm),
    fitTables_eq (signaturesLength.trans grow.length_products.symm)]
  have length : factors.length = lexicon.tables.wordCounts.length :=
    grow.length_eq.trans wordsLength.symm
  have wordsFit := splitTables_fits fits.wordCounts grow.length_eq randomness stream
  have signaturesFit := splitTables_fits fits.unseenSignatureCounts grow.length_eq randomness
    (splitTables randomness (factors.zip lexicon.tables.wordCounts) stream).2
  refine ⟨retable_fits wordsFit signaturesFit, tables.retable wordsFit signaturesFit ?_ ?_⟩
  · intro table member word present
    obtain ⟨old, before, names⟩ :=
      exists_mem_of_forall₂ (splitTables_names length randomness stream) member
    rw [NameTable.contains_iff, names, ← NameTable.contains_iff] at present
    exact ⟨old, before, present⟩
  · intro all word
    obtain rfl := noiseless all
    refine wordCount_eq (splitTables_sameSums length (fun factor member => ?_) stream) word
    rcases grow.bounds factor member with rfl | rfl <;> decide

theorem mergeCounts_sum (size : Nat) (mapping : List Nat) (counts : List α) :
    Delivers Any (fun merged => HasSize merged size ∧ merged.sum = counts.sum)
      (mergeCounts size mapping counts) := by
  have start : HasSize (List.replicate size (0 : α)) size := List.length_replicate
  have loop : Delivers Any (Grows (HasSize · size) List.sum (List.replicate size 0)
      (counts.zipIdx.map Prod.fst).sum) (mergeCounts size mapping counts) := by
    refine Delivers.foldlM_grows Prod.fst start fun merged (count, old) _ sized => ?_
    refine (delivers_any _).bind fun new _ => (delivers_any _).bind_ok fun before found _ => ?_
    constructor
    · exact List.length_set.trans sized
    · have grown : ((merged.set new (before + count)).map id).sum = (merged.map id).sum + count :=
        sum_map_set (fetch_eq_ok_iff.mp found) rfl
      rwa [List.map_id, List.map_id] at grown
  apply loop.mono
  rintro merged ⟨sized, sum⟩
  refine ⟨sized, sum.trans ?_⟩
  rw [List.zipIdx_map_fst, List.sum_replicate, smul_zero, zero_add]

theorem mergeTable_sums (mapping : List Nat) (size : Nat) (table : NameTable (List α)) :
    Delivers Any (fun merged : NameTable (List α) => merged.Fits size ∧ merged.SameSums table)
      (table.mapM fun (name, counts) => do return (name, ← mergeCounts size mapping counts)) := by
  have each (named : String × List α) : Delivers Any
      (fun merged : String × List α =>
        HasSize merged.2 size ∧ merged.1 = named.1 ∧ merged.2.sum = named.2.sum)
      (do return (named.1, ← mergeCounts size mapping named.2)) :=
    (mergeCounts_sum size mapping named.2).bind fun merged result => ⟨result.1, rfl, result.2⟩
  apply (Delivers.mapM fun named _ => each named).mono
  intro merged all
  constructor
  · intro entry member
    obtain ⟨named, -, sized, -⟩ := exists_mem_of_forall₂ all.flip member
    exact sized
  · exact all.flip.imp fun _ _ holds => holds.2

theorem mergeTables_sums {mappings : List (List Nat)} {substates : List Nat}
    {tables : List (NameTable (List α))} (sizes : substates.length = mappings.length)
    (length : tables.length = mappings.length) :
    Delivers Any (fun merged => List.Forall₂ NameTable.Fits merged substates ∧
        List.Forall₂ NameTable.SameSums merged tables)
      (mergeTables mappings substates tables) := by
  unfold mergeTables
  induction mappings generalizing substates tables with
  | nil =>
    obtain rfl := List.eq_nil_of_length_eq_zero sizes
    obtain rfl := List.eq_nil_of_length_eq_zero length
    exact ⟨.nil, .nil⟩
  | cons mapping mappings ih =>
    cases substates with
    | nil => cases sizes
    | cons size substates =>
      cases tables with
      | nil => cases length
      | cons table tables =>
        rw [List.zip_cons_cons, List.zip_cons_cons, List.mapM_cons]
        refine (mergeTable_sums mapping size table).bind fun first ⟨fits, same⟩ => ?_
        refine (ih (Nat.succ.inj sizes) (Nat.succ.inj length)).bind fun rest ⟨restFit, restSame⟩ => ?_
        exact ⟨.cons fits restFit, .cons same restSame⟩

/-- Tables are brought to a number of categories without losing or adding counts. -/
theorem fitTables_delivers (size : Nat) (tables : List (NameTable (List α))) :
    Delivers Any (fun fitted => fitted.length = size ∧
        (∀ word, wordCount fitted word = wordCount tables word) ∧
        ∀ table ∈ fitted, table ∈ tables ∨ table = [])
      (fitTables size tables) := by
  refine Delivers.ite (fun none => ?_) fun _ => trivial
  have dropped : ∀ words ∈ tables.drop size, words = [] := fun words member =>
    List.isEmpty_iff.mp (List.all_eq_true.mp none words member)
  have padded : ∀ words ∈ List.replicate (size - tables.length) ([] : NameTable (List α)),
      words = [] := fun words member => List.eq_of_mem_replicate member
  refine ⟨?_, fun word => ?_, fun table member => ?_⟩
  · rw [List.length_append, List.length_take, List.length_replicate]
    omega
  · calc wordCount (tables.take size ++ List.replicate (size - tables.length) []) word
      _ = wordCount (tables.take size) word := by
        rw [wordCount_append, wordCount_of_empty padded, add_zero]
      _ = wordCount (tables.take size ++ tables.drop size) word := by
        rw [wordCount_append, wordCount_of_empty dropped, add_zero]
      _ = wordCount tables word := by rw [List.take_append_drop]
  · rcases List.mem_append.mp member with kept | new
    · exact .inl (List.mem_of_mem_take kept)
    · exact .inr (padded table new)

/-- Merging adds counts of a word up, whatever the substates are merged into. -/
theorem Lexicon.Balanced.merge {lexicon : Lexicon α} (balanced : lexicon.Balanced whole)
    (mappings : List (List Nat)) :
    Delivers Any (·.Balanced whole) (lexicon.merge mappings) := by
  obtain ⟨fits, tables⟩ := balanced
  have sizes : Delivers Any (fun substates => substates.length = mappings.length)
      (mappings.mapM imageSize) :=
    (Delivers.mapM fun _ _ => delivers_any _).mono fun substates all => all.length_eq.symm
  refine sizes.bind fun substates length => (delivers_any _).bind fun _ _ => ?_
  refine (fitTables_delivers substates.length lexicon.tables.wordCounts).bind
    fun words ⟨wordsLength, wordsCount, wordsFrom⟩ => ?_
  refine (fitTables_delivers substates.length lexicon.tables.unseenSignatureCounts).bind
    fun signatures ⟨signaturesLength, _⟩ => ?_
  refine (mergeTables_sums length (wordsLength.trans length)).bind
    fun newWords ⟨wordsFit, wordsSame⟩ => ?_
  refine (mergeTables_sums length (signaturesLength.trans length)).bind
    fun newSignatures ⟨signaturesFit, _⟩ => ?_
  refine (delivers_any _).bind fun ancestry _ => ?_
  refine ⟨retable_fits wordsFit signaturesFit, tables.retable wordsFit signaturesFit ?_ ?_⟩
  · intro table member word present
    obtain ⟨fitted, before, same⟩ := exists_mem_of_forall₂ wordsSame member
    rw [NameTable.contains_iff, same.names, ← NameTable.contains_iff] at present
    rcases wordsFrom fitted before with old | rfl
    · exact ⟨fitted, old, present⟩
    · cases present
  · intro _ word
    exact (wordCount_eq wordsSame word).trans (wordsCount word)

/-- Counts in a frame that come about by counting trees and tying rare words, in any order. Trees
have scores for the substates of the frame, and so has a lexicon that words are weighted by. Counts
are `whole` if the weights of every token sum to one. -/
inductive EmissionCounts.Counted (whole : Prop) : LexiconFrame α → EmissionCounts α → Prop where
  | start {substates : List Nat} {root : Nat} {settings : LexiconSettings α}
      {counts : EmissionCounts α}
      (success : EmissionCounts.start substates root settings = .ok counts) :
      Counted whole counts.toLexiconFrame counts
  | after {lexicon : Lexicon α} {counts : EmissionCounts α}
      (success : EmissionCounts.after lexicon = .ok counts) :
      Counted whole lexicon.toLexiconFrame counts
  | scored {frame : LexiconFrame α} {counts next : EmissionCounts α} {policy : UnseenPolicy α}
      {tree : LatentTree α} (counted : Counted whole frame counts)
      (fits : tree.Fits frame.substates) (ones : whole → tree.SharesOne)
      (success : counts.countScored policy tree = .ok next) : Counted whole frame next
  | unscored {γ : Type} [Draws γ α] {frame : LexiconFrame α} {counts next : EmissionCounts α}
      {policy : UnseenPolicy α} {tree : LatentTree α} {randomness : α}
      {reference : Option (Lexicon α)} {stream rest : γ} (counted : Counted whole frame counts)
      (fits : tree.Fits frame.substates)
      (inhabited : whole → ∀ node ∈ tree.preterminals, 0 < node.substates)
      (like : ∀ lexicon, reference = some lexicon → lexicon.substates = frame.substates)
      (success : counts.countUnscored policy randomness reference tree stream = .ok (next, rest)) :
      Counted whole frame next
  | tied {frame : LexiconFrame α} {counts next : EmissionCounts α} {rare : α}
      (counted : Counted whole frame counts) (success : counts.tieRare rare = .ok next) :
      Counted whole frame next

/-- Lexicons that come about by estimating them from counts, then splitting and merging them in any
order. They are `whole` if the counts were and splits had no noise. -/
inductive Lexicon.Reached (whole : Prop) : Lexicon α → Prop where
  | estimated {frame : LexiconFrame α} {counts : EmissionCounts α}
      (counted : counts.Counted whole frame) : Reached whole counts.estimate
  | split {γ : Type} [Draws γ α] {lexicon next : Lexicon α} {randomness : α} {counts : List Nat}
      {unbounded : Bool} {stream rest : γ} (reached : Reached whole lexicon)
      (noiseless : whole → randomness = 0)
      (success : lexicon.split randomness counts unbounded stream = .ok (next, rest)) :
      Reached whole next
  | merged {lexicon next : Lexicon α} {mappings : List (List Nat)} (reached : Reached whole lexicon)
      (success : lexicon.merge mappings = .ok next) : Reached whole next

theorem EmissionCounts.Counted.balancedIn {frame : LexiconFrame α} {counts : EmissionCounts α}
    (counted : Counted whole frame counts) : counts.BalancedIn whole frame := by
  induction counted with
  | start success => exact (start_balanced _ _ _).of_ok success
  | after success => exact (after_balanced _).of_ok success
  | scored _ fits ones success ih => exact (countScored_balanced ih fits ones).of_ok success
  | unscored _ fits inhabited like success ih =>
    exact (countUnscored_balanced ih fits inhabited like _ _).of_ok success
  | tied _ success ih => exact (tieRare_balanced ih _).of_ok success

/-- Whatever was done to a lexicon and to the counts it comes from, its accounts agree. -/
theorem Lexicon.balanced_of_reached {lexicon : Lexicon α} (reached : lexicon.Reached whole) :
    lexicon.Balanced whole := by
  induction reached with
  | estimated counted =>
    have balanced := counted.balancedIn
    rw [← balanced.inFrame.frame_eq] at balanced
    exact ⟨balanced.inFrame.fits, balanced.tables⟩
  | split _ noiseless success ih => exact (ih.split noiseless _ _ _).of_ok success
  | merged _ success ih => exact (ih.merge _).of_ok success

/-- A tree with the scores of a word that either substate of its tag is as likely to emit. -/
def scoredTree : LatentTree Rat :=
  .unary 0 ⟨⟨[1 / 2], 0⟩, ⟨[1], 0⟩⟩ (.preterminal 1 "rain" ⟨⟨[1 / 4, 1 / 4], 0⟩, ⟨[1, 1], 0⟩⟩)

/-- Two trees are counted, rare words tied and substates split and merged. -/
def sampleHistory : Except Fault (Lexicon Rat) := do
  let counts ← EmissionCounts.start [1, 2] 0 .standard
  let (counts, _) ← counts.countUnscored ⟨true, 20⟩ 1 none sampleTree ()
  let counts ← counts.countScored ⟨true, 20⟩ scoredTree
  let counts ← counts.tieRare 20
  let (lexicon, _) ← counts.estimate.split 0 [] true ()
  lexicon.merge [[0], [0, 1, 1, 0]]

theorem isOk_sampleHistory : sampleHistory.isOk = true := by
  decide +kernel

theorem scoredTree_fits : scoredTree.Fits [1, 2] := by
  simp only [scoredTree, LatentTree.fits_unary, LatentTree.fits_preterminal]
  exact ⟨⟨rfl, rfl, by decide⟩, ⟨rfl, rfl, by decide⟩⟩

theorem scoredTree_sharesOne : scoredTree.SharesOne := by
  intro mass massed positive node member
  obtain rfl : 1 / 2 = mass := Except.ok.inj massed
  obtain rfl := List.mem_singleton.mp member
  decide +kernel

theorem sampleHistory_balanced :
    ∃ lexicon, sampleHistory = .ok lexicon ∧ lexicon.Balanced True := by
  have succeeds := isOk_sampleHistory
  cases done : sampleHistory with
  | error fault => simp [done, Except.isOk, Except.toBool] at succeeds
  | ok lexicon =>
    obtain ⟨counts, begun, rest⟩ := bind_eq_ok_iff.mp done
    obtain ⟨⟨second, _⟩, unscored, rest⟩ := bind_eq_ok_iff.mp rest
    obtain ⟨third, scored, rest⟩ := bind_eq_ok_iff.mp rest
    obtain ⟨fourth, tied, rest⟩ := bind_eq_ok_iff.mp rest
    obtain ⟨⟨divided, _⟩, split, merged⟩ := bind_eq_ok_iff.mp rest
    have substates : counts.substates = [1, 2] := by
      obtain ⟨_, -, begun⟩ := bind_eq_ok_iff.mp begun
      obtain ⟨_, -, begun⟩ := bind_eq_ok_iff.mp begun
      cases begun
      rfl
    have counted : fourth.Counted True counts.toLexiconFrame := by
      refine .tied (.scored (.unscored (.start begun) ?_ ?_ ?_ unscored) ?_ ?_ scored) tied
      · exact substates ▸ sampleTree_fits
      · exact fun _ => by decide
      · intro _ absent
        cases absent
      · exact substates ▸ scoredTree_fits
      · exact fun _ => scoredTree_sharesOne
    exact ⟨lexicon, rfl, Lexicon.balanced_of_reached
      (.merged (.split (.estimated counted) (fun _ => rfl) split) merged)⟩

end LatentGrammar
