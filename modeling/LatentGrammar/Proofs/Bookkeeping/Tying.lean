import LatentGrammar.Proofs.Bookkeeping.Balance

/-! Tied counts. A tag whose unseen statistics say anything spreads the count of each of its rare
words as these are spread; nothing is lost or gained by it. Since the statistics and the totals that
tell which words are rare stay as they are, tying again with the same bound changes nothing, and
tying with two bounds is tying with the higher one. -/

namespace LatentGrammar

variable {α : Type} [ExactScalar α]

namespace EmissionCounts

variable {wordTotals : NameTable α} {rare first second : α} {unseen : List α} {word : String}
  {counts : List α}

/-- The word is seen fewer than `rare` times, and there is something to tie it to. -/
def IsTied (wordTotals : NameTable α) (rare : α) (unseen : List α) (word : String) : Prop :=
  0 < unseen.sum ∧ (wordTotals.get? word).getD 0 < rare

instance : Decidable (IsTied wordTotals rare unseen word) := inferInstanceAs (Decidable (_ ∧ _))

/-- The counts of a word of a tag after tying. -/
def tiedVector (wordTotals : NameTable α) (rare : α) (unseen : List α) (word : String)
    (counts : List α) : List α :=
  if IsTied wordTotals rare unseen word then unseen.map (counts.sum / unseen.sum * ·) else counts

theorem isTied_max : IsTied wordTotals (max first second) unseen word ↔
    IsTied wordTotals first unseen word ∨ IsTied wordTotals second unseen word := by
  rw [IsTied, IsTied, IsTied, lt_max_iff, and_or_left]

theorem sum_proportional (positive : 0 < unseen.sum) (total : α) :
    (unseen.map (total / unseen.sum * ·)).sum = total := by
  rw [List.sum_map_mul_left, List.map_id', div_mul_cancel₀ total positive.ne']

theorem sum_tiedVector : (tiedVector wordTotals rare unseen word counts).sum = counts.sum := by
  unfold tiedVector
  split
  · next tied => exact sum_proportional tied.1 counts.sum
  · rfl

/-- Once a word is tied, its counts depend on their sum only. -/
theorem tiedVector_tiedVector :
    tiedVector wordTotals second unseen word (tiedVector wordTotals first unseen word counts) =
      tiedVector wordTotals (max first second) unseen word counts := by
  by_cases later : IsTied wordTotals second unseen word
  · have highest := isTied_max.mpr (.inr later : IsTied wordTotals first unseen word ∨ _)
    rw [tiedVector, if_pos later, sum_tiedVector, tiedVector, if_pos highest]
  · rw [tiedVector, if_neg later]
    unfold tiedVector
    by_cases earlier : IsTied wordTotals first unseen word
    · rw [if_pos earlier, if_pos (isTied_max.mpr (.inl earlier))]
    · rw [if_neg earlier, if_neg (mt isTied_max.mp (not_or.mpr ⟨earlier, later⟩))]

theorem spread_eq (total unseenTotal : α) (same : counts.length = unseen.length) :
    spread total unseenTotal counts unseen = unseen.map (total / unseenTotal * ·) := by
  induction counts generalizing unseen with
  | nil =>
    obtain rfl := List.eq_nil_of_length_eq_zero same.symm
    rfl
  | cons count counts ih =>
    obtain ⟨one, rest, rfl⟩ := List.exists_cons_of_length_eq_add_one same.symm
    rw [spread, ih (Nat.succ.inj same), List.map_cons, mul_div_right_comm]

/-- The words of a tag after tying. -/
def tiedWords (wordTotals : NameTable α) (rare : α) (unseen : List α)
    (words : NameTable (List α)) : NameTable (List α) :=
  words.map fun (word, counts) => (word, tiedVector wordTotals rare unseen word counts)

theorem tieWords_eq {words : NameTable (List α)} (fits : words.Fits unseen.length) :
    tieWords wordTotals rare unseen words = tiedWords wordTotals rare unseen words := by
  unfold tieWords tiedWords
  simp only [Scalar.sum_eq]
  by_cases empty : unseen.sum ≤ 0
  · have none (word : String) : ¬IsTied wordTotals rare unseen word := fun tied =>
      not_lt.mpr empty tied.1
    simp [if_pos empty, tiedVector, none]
  · rw [if_neg empty]
    refine List.map_congr_left fun (word, counts) member => ?_
    by_cases often : rare ≤ (wordTotals.get? word).getD 0
    · have kept : ¬IsTied wordTotals rare unseen word := fun tied => not_lt.mpr often tied.2
      rw [if_pos often, tiedVector, if_neg kept]
    · have tied : IsTied wordTotals rare unseen word := ⟨not_le.mp empty, not_le.mp often⟩
      rw [if_neg often, tiedVector, if_pos tied, spread_eq _ _ (fits (word, counts) member)]

theorem tiedWords_tiedWords (words : NameTable (List α)) :
    tiedWords wordTotals second unseen (tiedWords wordTotals first unseen words) =
      tiedWords wordTotals (max first second) unseen words := by
  rw [tiedWords, tiedWords, List.map_map]
  exact List.map_congr_left fun (word, _) _ => congrArg (Prod.mk word) tiedVector_tiedVector

/-- A tag has the same words as before. The counts of those that are seen fewer than `rare` times
are as the unseen statistics, if there are any, and sum to what they summed to; others stay. -/
structure Tied (wordTotals : NameTable α) (rare : α) (unseen : List α)
    (old new : NameTable (List α)) : Prop where
  names : new.map Prod.fst = old.map Prod.fst
  tied : ∀ word counts, old.get? word = some counts →
    0 < unseen.sum → (wordTotals.get? word).getD 0 < rare →
    ∃ vector, new.get? word = some vector ∧ vector.sum = counts.sum ∧
      ∃ ratio, vector = unseen.map (ratio * ·)
  kept : ∀ word, unseen.sum ≤ 0 ∨ rare ≤ (wordTotals.get? word).getD 0 →
    new.get? word = old.get? word

theorem tied_tiedWords (words : NameTable (List α)) :
    Tied wordTotals rare unseen words (tiedWords wordTotals rare unseen words) where
  names := by
    rw [tiedWords, List.map_map]
    rfl
  tied word counts found some few := by
    refine ⟨tiedVector wordTotals rare unseen word counts, ?_, sum_tiedVector,
      counts.sum / unseen.sum, if_pos ⟨some, few⟩⟩
    rw [tiedWords, NameTable.get?_map, found, Option.map_some]
  kept word reason := by
    have kept : ¬IsTied wordTotals rare unseen word := fun tied =>
      reason.elim (not_le.mpr tied.1) (not_le.mpr tied.2)
    have same : tiedVector wordTotals rare unseen word = id := funext fun _ => if_neg kept
    rw [tiedWords, NameTable.get?_map, same, Option.map_id_fun, id]

/-- The counts with those of rare words tied. -/
def tie (rare : α) (counts : EmissionCounts α) : EmissionCounts α :=
  { counts with tables := { counts.tables with
      wordCounts := counts.tables.wordCounts.mapIdx fun state words =>
        tiedWords counts.tables.wordTotals rare ((counts.tables.unseenTagCounts[state]?).getD [])
          words } }

variable {counts : EmissionCounts α} {substates : List Nat}

theorem tieRare_eq_tie (fits : counts.tables.Fits substates) (rare : α) :
    counts.tieRare rare = .ok (counts.tie rare) := by
  have each : ∀ entry ∈ counts.tables.wordCounts.zipIdx, (do
      return tieWords counts.tables.wordTotals rare
        (← fetch counts.tables.unseenTagCounts entry.2) entry.1) =
      (.ok (tiedWords counts.tables.wordTotals rare
        ((counts.tables.unseenTagCounts[entry.2]?).getD []) entry.1) :
          Except Fault (NameTable (List α))) := by
    intro (words, state) member
    obtain ⟨size, known, wordsFit⟩ :=
      exists_of_forall₂ fits.wordCounts.flip (List.mem_zipIdx_iff_getElem?.mp member)
    obtain ⟨unseen, found, sized⟩ := exists_of_forall₂ fits.unseenTagCounts known
    obtain rfl : unseen.length = size := sized
    rw [fetch_eq_ok_iff.mpr found, found, Option.getD_some, ← tieWords_eq wordsFit]
    rfl
  rw [tieRare, mapM_eq_map each, tie, List.mapIdx_eq_zipIdx_map]
  rfl

theorem fits_tie (fits : counts.tables.Fits counts.substates) (rare : α) :
    (counts.tie rare).tables.Fits counts.substates := by
  have kept : Delivers Never (·.InFrame counts.toLexiconFrame) (counts.tieRare rare) :=
    tieRare_delivers ⟨rfl, fits⟩ rare
  exact (kept.of_ok (tieRare_eq_tie fits rare)).fits

/-- What is tied to stays, so that the higher bound decides. -/
theorem tie_tie (first second : α) (counts : EmissionCounts α) :
    (counts.tie first).tie second = counts.tie (max first second) := by
  simp only [tie, List.mapIdx_mapIdx, Function.comp_def, tiedWords_tiedWords]

/-- The words of every tag are tied to its unseen statistics, and nothing else changes. -/
structure TiedAll (rare : α) (old new : EmissionCounts α) : Prop where
  tags : new.tables.wordCounts.length = old.tables.wordCounts.length
  words : ∀ (state : Nat) words unseen, old.tables.wordCounts[state]? = some words →
    old.tables.unseenTagCounts[state]? = some unseen →
    ∃ tied, new.tables.wordCounts[state]? = some tied ∧
      Tied old.tables.wordTotals rare unseen words tied
  others : new =
    { old with tables := { old.tables with wordCounts := new.tables.wordCounts } }

theorem tiedAll_tie (rare : α) (counts : EmissionCounts α) :
    TiedAll rare counts (counts.tie rare) where
  tags := List.length_mapIdx
  words state words unseen found known := by
    refine ⟨tiedWords counts.tables.wordTotals rare unseen words, ?_, tied_tiedWords words⟩
    rw [tie, List.getElem?_mapIdx, found, Option.map_some, known, Option.getD_some]
  others := rfl

/-- Counts that have the sizes of their categories can be tied. Under every tag with unseen
statistics, words seen fewer than `rare` times then have counts of the same sum in proportion to
these; all other counts are as before. Tying again changes nothing, and tying first with one bound
and then with another is tying with the higher one. -/
theorem tieRare_stable (fits : counts.tables.Fits counts.substates) :
    (∀ rare, ∃ next, counts.tieRare rare = .ok next ∧ TiedAll rare counts next ∧
      next.tieRare rare = .ok next) ∧
    ∀ first second, (counts.tieRare first >>= fun next => next.tieRare second) =
      counts.tieRare (max first second) := by
  have again (first second : α) :
      (counts.tie first).tieRare second = .ok (counts.tie (max first second)) := by
    rw [← tie_tie]
    exact tieRare_eq_tie (fits_tie fits first) second
  refine ⟨fun rare => ⟨counts.tie rare, tieRare_eq_tie fits rare, tiedAll_tie rare counts, ?_⟩,
    fun first second => ?_⟩
  · rw [again, max_self]
  · rw [tieRare_eq_tie fits, ok_bind, again, tieRare_eq_tie fits]

/-- Two tags, of which only the first has unseen statistics; two of its three words are seen less often
than the third one. -/
def unevenCounts : EmissionCounts Rat where
  substates := [2, 1]
  root := 1
  settings := ⟨.simple, 0, 0, 0, 0⟩
  smoothing := .none
  ancestry := [⟨[some 0, some 0]⟩, ⟨[some 0]⟩]
  tables :=
    { tagCounts := [[5, 9], [2]]
      wordCounts := [[("rain", [0, 2]), ("fell", [3, 1]), ("the", [2, 6])], [("rain", [2])]]
      wordTotals := [("rain", 4), ("fell", 4), ("the", 8)]
      totalTokens := 16
      unseenTagCounts := [[3, 1], [0]]
      unseenSignatureCounts := [[("UNK", [3, 1])], []]
      unseenSignatureTotals := [("UNK", 4)]
      unseenTotal := 4 }

theorem unevenCounts_fit : unevenCounts.tables.Fits unevenCounts.substates := by
  constructor <;> simp [unevenCounts, HasSize, NameTable.Fits]

theorem unevenCounts_tied :
    ∃ next, unevenCounts.tieRare 5 = .ok next ∧
      next.tables.wordCounts =
        [[("rain", [3 / 2, 1 / 2]), ("fell", [3, 1]), ("the", [2, 6])], [("rain", [2])]] ∧
      next.tieRare 5 = .ok next ∧
      (unevenCounts.tieRare 5 >>= fun next => next.tieRare 9) = unevenCounts.tieRare 9 := by
  obtain ⟨tied, composed⟩ := tieRare_stable unevenCounts_fit
  obtain ⟨next, done, -, again⟩ := tied 5
  have table : (unevenCounts.tieRare 5).map (·.tables.wordCounts) = .ok
      [[("rain", [3 / 2, 1 / 2]), ("fell", [3, 1]), ("the", [2, 6])], [("rain", [2])]] := by
    decide +kernel
  rw [done] at table
  refine ⟨next, done, Except.ok.inj table, again, ?_⟩
  rw [composed 5 9, max_eq_right (by decide)]

end EmissionCounts

end LatentGrammar
