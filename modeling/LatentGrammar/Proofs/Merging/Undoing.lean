import LatentGrammar.Proofs.Merging.Cells
import LatentGrammar.Proofs.Merging.Room
import LatentGrammar.Proofs.Splitting.Refinement

namespace LatentGrammar

open Finset

/-- Sends every substate of each of `size` families of `factor` members to the family's number. -/
def familyMap (size factor : Nat) : List Nat := (List.range (size * factor)).map (· / factor)

/-- Sends the substates of every category back to their ancestors. -/
def familyMaps (substates factors : List Nat) : List (List Nat) :=
  (substates.zip factors).map fun (size, factor) => familyMap size factor

section Family

variable {size factor n image : Nat}

theorem familyMap_getElem?_iff :
    (familyMap size factor)[n]? = some image ↔ n < size * factor ∧ n / factor = image := by
  simp only [familyMap, List.getElem?_map, Option.map_eq_some_iff, List.getElem?_eq_some_iff,
    List.length_range, List.getElem_range]
  constructor
  · rintro ⟨_, ⟨below, rfl⟩, same⟩
    exact ⟨below, same⟩
  · rintro ⟨below, same⟩
    exact ⟨n, ⟨below, rfl⟩, same⟩

theorem familyMap_onto (some : 0 < factor) : MapsOnto (familyMap size factor) (size * factor) size := by
  refine ⟨by simp [familyMap], fun image => ?_⟩
  simp only [familyMap, List.mem_map, List.mem_range]
  constructor
  · rintro ⟨n, below, rfl⟩
    exact Nat.div_lt_of_lt_mul (Nat.mul_comm size factor ▸ below)
  · intro below
    refine ⟨image * factor, ?_, Nat.mul_div_cancel image some⟩
    exact Nat.mul_lt_mul_of_pos_right below some

theorem card_fiber_familyMap (some : 0 < factor) (below : image < size) :
    #(fiber (familyMap size factor) image) = factor := by
  have members : fiber (familyMap size factor) image = Ico (image * factor) ((image + 1) * factor) := by
    ext n
    rw [mem_fiber, familyMap_getElem?_iff, mem_Ico, Nat.div_eq_iff some]
    have inside : (image + 1) * factor ≤ size * factor := Nat.mul_le_mul_right factor below
    rw [Nat.succ_mul] at inside ⊢
    omega
  rw [members, Nat.card_Ico, Nat.succ_mul, Nat.add_sub_cancel_left]

/-- What a family has in equal shares it has as a whole. -/
theorem sum_fiber_familyMap {K : Type} [AddCommMonoid K] (some : 0 < factor) (below : image < size)
    (f : Nat → K) : ∑ n ∈ fiber (familyMap size factor) image, f (n / factor) = factor • f image := by
  have each (n : Nat) (member : n ∈ fiber (familyMap size factor) image) : f (n / factor) = f image := by
    rw [(familyMap_getElem?_iff.mp (mem_fiber.mp member)).2]
  rw [sum_congr rfl each, sum_const, card_fiber_familyMap some below]

end Family

variable {allowed : Fault → Prop} {substates factors : List Nat} {root : Nat}

theorem mapOf_familyMaps {state size factor : Nat} (found : substates[state]? = some size)
    (grows : factors[state]? = some factor) :
    mapOf (familyMaps substates factors) state = familyMap size factor := by
  simp [mapOf, familyMaps, zip_getElem? found grows]

namespace FactorsFit

variable (fits : FactorsFit factors substates root)

include fits

theorem onto : OntoMaps (familyMaps substates factors) (products substates factors) substates := by
  refine ⟨?_, fits.length_products.symm, fun state mapping size new here product found => ?_⟩
  · simp [familyMaps, products]
  · obtain ⟨factor, grows, -⟩ := fits.factor_of found
    rw [products_getElem? found grows] at product
    obtain rfl := Option.some.inj product
    simp only [familyMaps, List.getElem?_map, zip_getElem? found grows, Option.map_some,
      Option.some.injEq] at here
    subst here
    exact familyMap_onto (fits.positive grows)

/-- The images of the families are counted without a fault, if their members could be. -/
theorem familyMaps_imageSize (grown : multiply substates factors = .ok (products substates factors)) :
    (familyMaps substates factors).mapM imageSize = .ok substates := by
  have words : ∀ value ∈ products substates factors, value < Word.limit := by
    have small (n : Nat) : Delivers Any (· < Word.limit) (word n) :=
      Delivers.ite (fun below => below) fun _ => trivial
    exact (Delivers.mapM_forall fun entry _ => small (entry.1 * entry.2)).of_ok grown
  have onto := fits.onto
  refine mapM_eq_ok_of_forall₂ (forall₂_of_getElem? ?_ fun state mapping size here found => ?_)
  · rw [onto.length_eq, fits.length_products]
  · obtain ⟨old, new, product, again, maps⟩ := onto.of_mapping here
    cases found.symm.trans again
    rw [maps.imageSize_eq_word]
    exact word_eq_ok_iff.mpr ⟨maps.new_le.trans_lt (words old (List.mem_of_getElem? product)), rfl⟩

/-- The substates of a rule go back to their ancestors. -/
theorem familyMaps_of {key : Production} {parents lefts rights fp fl fr : Nat}
    (dimensions : key.dimensions substates = .ok (parents, lefts, rights))
    (grows : key.growthFactors factors = .ok (fp, fl, fr)) :
    (key.parentMap (familyMaps substates factors) = familyMap parents fp ∧
      key.leftMap (familyMaps substates factors) = familyMap lefts fl ∧
      key.rightMap (familyMaps substates factors) = familyMap rights fr) ∧
      0 < fp ∧ 0 < fl ∧ 0 < fr := by
  cases key with
  | unary parent child =>
    obtain ⟨foundParent, foundChild, rfl⟩ := Production.dimensions_unary_iff.mp dimensions
    obtain ⟨growsParent, growsChild, rfl⟩ := Production.dimensions_unary_iff.mp grows
    exact ⟨⟨mapOf_familyMaps foundParent growsParent, mapOf_familyMaps foundChild growsChild, rfl⟩,
      fits.positive growsParent, fits.positive growsChild, Nat.one_pos⟩
  | binary parent left right =>
    obtain ⟨foundParent, foundLeft, foundRight⟩ := Production.dimensions_binary_iff.mp dimensions
    obtain ⟨growsParent, growsLeft, growsRight⟩ := Production.dimensions_binary_iff.mp grows
    exact ⟨⟨mapOf_familyMaps foundParent growsParent, mapOf_familyMaps foundLeft growsLeft,
      mapOf_familyMaps foundRight growsRight⟩, fits.positive growsParent, fits.positive growsLeft,
      fits.positive growsRight⟩

end FactorsFit

namespace RuleBlock

variable {α : Type} {parents lefts rights : Nat}

theorem Sized.ext [Zero α] {first second : RuleBlock α} (one : first.Sized parents lefts rights)
    (two : second.Sized parents lefts rights)
    (cells : ∀ i < parents, ∀ j < lefts, ∀ k < rights, first.cell i j k = second.cell i j k) :
    first = second := by
  have entries : first.cells = second.cells := by
    apply Array.ext (one.size_eq.trans two.size_eq.symm)
    intro n inside again
    -- the number of a cell is made of its three substates
    have below : n < parents * lefts * rights := one.size_eq ▸ inside
    have right : 0 < rights := Nat.pos_of_ne_zero fun none => by simp [none] at below
    have row : n / rights < parents * lefts := Nat.div_lt_of_lt_mul (by rwa [Nat.mul_comm])
    have left : 0 < lefts := Nat.pos_of_ne_zero fun none => by simp [none] at row
    have parent : n / rights / lefts < parents := Nat.div_lt_of_lt_mul (by rwa [Nat.mul_comm])
    have place : (n / rights / lefts * lefts + n / rights % lefts) * rights + n % rights = n := by
      rw [Nat.div_add_mod', Nat.div_add_mod']
    have here := cells _ parent (n / rights % lefts) (Nat.mod_lt _ left) (n % rights)
      (Nat.mod_lt _ right)
    simpa only [cell, offset, one.lefts_eq, one.rights_eq, two.lefts_eq, two.rights_eq, place,
      Array.getElem?_eq_getElem inside, Array.getElem?_eq_getElem again, Option.getD_some] using here
  calc first = ⟨first.parents, first.lefts, first.rights, first.cells⟩ := rfl
    _ = ⟨second.parents, second.lefts, second.rights, second.cells⟩ := by
        rw [one.parents_eq, one.lefts_eq, one.rights_eq, entries, two.parents_eq, two.lefts_eq,
          two.rights_eq]

variable [ExactScalar α] {old new : RuleBlock α} {key : Production} {weights : List (List α)}
  {fp fl fr : Nat}

theorem sum_cells_familyMap (left : 0 < fl) (right : 0 < fr) (cells : Nat → Nat → α) {j k : Nat}
    (inLeft : j < lefts) (inRight : k < rights) :
    ∑ j' ∈ fiber (familyMap lefts fl) j, ∑ k' ∈ fiber (familyMap rights fr) k,
        cells (j' / fl) (k' / fr) / ((fl * fr : Nat) : α) = cells j k := by
  have each (j' : Nat) := sum_fiber_familyMap right inRight fun k' =>
    cells (j' / fl) k' / ((fl * fr : Nat) : α)
  have some : ((fl : α) * fr) ≠ 0 :=
    mul_ne_zero (Nat.cast_ne_zero.mpr left.ne') (Nat.cast_ne_zero.mpr right.ne')
  rw [sum_congr rfl fun j' _ => each j',
    sum_fiber_familyMap left inLeft fun j' => fr • (cells j' k / ((fl * fr : Nat) : α))]
  rw [nsmul_eq_mul, nsmul_eq_mul, Nat.cast_mul, ← mul_assoc, mul_div_cancel₀ _ some]

/-- Merged again, a block of shares is the block that was shared out. -/
theorem merge_split (grow : FactorsFit factors substates root)
    (dimensions : key.dimensions substates = .ok (parents, lefts, rights))
    (grows : key.growthFactors factors = .ok (fp, fl, fr))
    (sized : old.Sized parents lefts rights)
    (newSized : new.Sized (parents * fp) (lefts * fl) (rights * fr))
    (shares : ∀ i < parents * fp, ∀ j < lefts * fl, ∀ k < rights * fr,
      new.cell i j k = old.cell (i / fp) (j / fl) (k / fr) / ((fl * fr : Nat) : α))
    (enough : (products substates factors).length ≤ weights.length)
    (crowded : (∀ count, cellCount parents lefts rights ≠ .ok count) → allowed .overflow) :
    Delivers allowed (· = old) (new.merge key (familyMaps substates factors)
      (relativeRows (familyMaps substates factors) weights) substates) := by
  have maps := grow.onto.maps
  obtain ⟨_, _, _, again, grown⟩ := Production.growthFactors_eq grow dimensions
  cases grows.symm.trans again
  obtain ⟨⟨parentMap, leftMap, rightMap⟩, positive, left, right⟩ := grow.familyMaps_of dimensions grows
  have weighted (size : Nat) (found : (products substates factors)[key.parent]? = some size) :
      ∃ row, (relativeRows (familyMaps substates factors) weights)[key.parent]? = some row ∧
        size ≤ row.length := by
    obtain ⟨row, -, present, length⟩ := maps.relativeRows_getElem? enough found
    exact ⟨_, present, length.ge⟩
  refine (RuleBlock.merge_delivers (newSized.fits grown) maps weighted fun _ _ _ same none => ?_).mono_ok
    fun merged done fits => (fits.sized dimensions).ext sized fun i parent j inLeft k inRight => ?_
  · cases dimensions.symm.trans same
    exact crowded none
  · obtain ⟨row, -, present, length⟩ :=
      maps.relativeRows_getElem? enough (Production.parent_of_dimensions grown)
    rw [merge_cells maps grown dimensions newSized present length.ge done parent inLeft inRight,
      parentMap, leftMap, rightMap,
      show mapOf (familyMaps substates factors) key.parent = familyMap parents fp from parentMap]
    have whole := sum_relativeWeights row (((familyMap_onto positive).onto i).mpr parent)
    calc ∑ n ∈ fiber (familyMap parents fp) i, entry (relativeWeights (familyMap parents fp) row) n *
            ∑ j' ∈ fiber (familyMap lefts fl) j, ∑ k' ∈ fiber (familyMap rights fr) k,
              new.cell n j' k'
      _ = ∑ n ∈ fiber (familyMap parents fp) i,
            entry (relativeWeights (familyMap parents fp) row) n * old.cell i j k := by
          refine sum_congr rfl fun n member => ?_
          obtain ⟨below, ancestor⟩ := familyMap_getElem?_iff.mp (mem_fiber.mp member)
          rw [← sum_cells_familyMap left right (old.cell i) inLeft inRight]
          congr 1
          refine sum_congr rfl fun j' inJ => sum_congr rfl fun k' inK => ?_
          rw [shares n below j' (familyMap_getElem?_iff.mp (mem_fiber.mp inJ)).1 k'
            (familyMap_getElem?_iff.mp (mem_fiber.mp inK)).1, ancestor]
      _ = old.cell i j k := by rw [← sum_mul, whole, one_mul]

end RuleBlock

variable {α γ : Type} [ExactScalar α] [Draws γ α] {counts : List Nat} {unbounded : Bool}
  {stream later : γ} {weights : List (List α)}

omit [ExactScalar α] [Draws γ α] in
theorem mapScoresM_eq {relation : Production × RuleBlock α → Production × RuleBlock α → Prop}
    {f : Production → RuleBlock α → Except Fault (RuleBlock α)}
    {entries others : List (Production × RuleBlock α)}
    (all : List.Forall₂ relation entries others)
    (each : ∀ entry other, relation entry other →
      other.1 = entry.1 ∧ Delivers allowed (· = entry.2) (f other.1 other.2)) :
    Delivers allowed (· = ⟨entries⟩) (RuleTable.mapScoresM f ⟨others⟩) := by
  suffices mapped : Delivers allowed (· = entries)
      (others.mapM fun entry => do return (entry.1, ← f entry.1 entry.2)) from
    mapped.bind fun _ same => congrArg RuleTable.mk same
  induction all with
  | nil => rfl
  | @cons entry other _ _ here _ ih =>
    obtain ⟨same, delivers⟩ := each entry other here
    rw [List.mapM_cons]
    refine (delivers.bind fun block back => ?_ :
      Delivers allowed (· = entry) (do return (other.1, ← f other.1 other.2))).bind fun first back => ?_
    · exact Prod.ext same back
    · exact ih.bind fun rest again => by rw [back, again]; rfl

/-- A split grammar that is merged again has the substates and rules that it had. -/
theorem Grammar.merge_split {grammar split : Grammar α}
    (rules : grammar.rules.Fits grammar.substates)
    (ancestry : List.Forall₂ Ancestry.Fits grammar.ancestry grammar.substates)
    (grows : growthFactors grammar.substates grammar.root counts unbounded = .ok factors)
    (success : grammar.split 0 counts unbounded stream = .ok (split, later))
    (enough : grammar.substates.length ≤ weights.length) :
    Delivers grammar.Cramped (fun merged => merged.substates = grammar.substates ∧
        merged.root = grammar.root ∧ merged.rules = grammar.rules)
      (split.merge (familyMaps grammar.substates factors) weights) := by
  obtain ⟨_, again, grow, grown, substates, root, lineages, newRules⟩ :=
    (Grammar.split_delivers rules 0 stream any_overflow).of_ok success
  cases grows.symm.trans again
  dsimp only at substates root lineages newRules
  have shared := split_shared rules grows success
  have known := grow.familyMaps_imageSize grown
  have onto := grow.onto
  rw [← substates] at onto
  have crowded (cramped : ¬HasRoom grammar.substates split.rules) : grammar.Cramped .overflow := by
    refine ⟨rfl, fun room => cramped (room.of_keys ?_)⟩
    have keys : List.Forall₂ (· = ·) (split.rules.entries.map Prod.fst)
        (grammar.rules.entries.map Prod.fst) :=
      List.forall₂_map_left_iff.mpr <| List.forall₂_map_right_iff.mpr <|
        shared.flip.imp fun _ _ here => here.key_eq
    rwa [List.forall₂_eq_eq_eq] at keys
  have enough : split.substates.length ≤ weights.length := by
    rwa [substates, grow.length_products]
  have newAncestry : List.Forall₂ Ancestry.Fits split.ancestry split.substates := by
    rw [lineages, substates]
    exact grow.splitAncestries ancestry
  refine (Grammar.merge_delivers newRules known onto.maps enough crowded
    (mergeAncestries_delivers newAncestry onto.maps fun large => crowded fun room =>
      not_crowded room.sizes large)).mono_ok fun merged done result => ?_
  obtain ⟨sizes, sameRoot, -⟩ := result
  obtain ⟨-, -, -, mapped⟩ := merge_eq_ok known done
  refine ⟨sizes, sameRoot.trans root, ?_⟩
  have back : Delivers Any (· = (⟨grammar.rules.entries⟩ : RuleTable α))
      (RuleTable.mapScoresM (fun key scores => scores.merge key (familyMaps grammar.substates factors)
        (relativeRows (familyMaps grammar.substates factors) weights) grammar.substates)
        ⟨split.rules.entries⟩) := by
    refine mapScoresM_eq shared fun entry other here => ⟨here.key_eq, ?_⟩
    obtain ⟨same, parents, lefts, rights, fp, fl, fr, dimensions, grows, sized, newSized, shares⟩ :=
      here
    rw [same]
    exact RuleBlock.merge_split grow dimensions grows sized newSized shares (substates ▸ enough)
      fun _ => any_overflow
  exact back.of_ok mapped

theorem mergeCounts_entries {mapping : List Nat} {size new : Nat} {values : List α}
    (sized : values.length = size) (maps : MapsInto mapping size new) {image : Nat}
    (below : image < new) :
    Delivers allowed (fun merged => merged.length = new ∧
        entry merged image = ∑ n ∈ fiber mapping image, entry values n)
      (mergeCounts new mapping values) := by
  let amount (counted : α × Nat) : α :=
    if mapping[counted.2]? = some image then counted.1 else 0
  have loop : Delivers allowed (Grows (·.length = new) (entry · image) (List.replicate new 0)
      (values.zipIdx.map amount).sum) (mergeCounts new mapping values) := by
    refine Delivers.foldlM_grows amount List.length_replicate fun merged (count, n) member length => ?_
    have found := List.mem_zipIdx_iff_getElem?.mp member
    have inside : n < mapping.length := by
      rw [maps.length_eq, ← sized]
      exact (List.getElem?_eq_some_iff.mp found).1
    have target := List.getElem?_eq_getElem inside
    have here : mapping[n] < merged.length := by
      rw [length]
      exact maps.below _ (List.getElem_mem inside)
    simp only [fetch_eq_ok_iff.mpr target, ok_bind,
      fetch_eq_ok_iff.mpr (List.getElem?_eq_getElem here)]
    refine ⟨List.length_set.trans length, ?_⟩
    show entry (merged.set mapping[n] (merged[mapping[n]] + count)) image = _
    simp only [amount, target, Option.some.injEq]
    by_cases same : mapping[n] = image
    · subst same
      simp [entry, here]
    · simp [entry, same]
  refine loop.mono fun merged grows => ⟨grows.kept, ?_⟩
  have total : (values.zipIdx.map amount).sum =
      ∑ n ∈ range values.length, amount ((values[n]?).getD 0, n) := by
    rw [List.sum_eq_foldl, List.foldl_map, foldl_zipIdx_eq_sum 0 (fun value n => amount (value, n))
      (fun _ _ _ => rfl), zero_add]
  rw [grows.grown, entry_replicate_zero, zero_add, total, fiber, sum_filter, maps.length_eq, sized]
  rfl

theorem mergeCounts_share {size factor : Nat} (some : 0 < factor) {values : List α}
    (sized : values.length = size) :
    mergeCounts size (familyMap size factor) (shareCounts factor values) = .ok values := by
  have length : (shareCounts factor values).length = size * factor := by
    rw [length_shareCounts, sized]
  have maps : MapsInto (familyMap size factor) (size * factor) size := (familyMap_onto some).mapsInto
  obtain ⟨merged, done, mergedLength⟩ := delivers_never_iff.mp (mergeCounts_delivers length maps)
  rw [done]
  congr 1
  apply List.ext_getElem (mergedLength.trans sized.symm)
  intro image inside again
  have below : image < size := mergedLength ▸ inside
  have summed : Delivers Any _ _ := mergeCounts_entries length maps below
  have total := (summed.of_ok done).2
  have nonzero : (factor : α) ≠ 0 := Nat.cast_ne_zero.mpr some.ne'
  simp only [entry_shareCounts some] at total
  rw [sum_fiber_familyMap some below fun n => entry values n / (factor : α), nsmul_eq_mul,
    mul_div_cancel₀ _ nonzero] at total
  simpa [entry, inside, again] using total

theorem mergeNames_share {size factor : Nat} (some : 0 < factor) {table : NameTable (List α)}
    (fits : table.Fits size) :
    ((table.share factor).mapM fun entry => do
      return (entry.1, ← mergeCounts size (familyMap size factor) entry.2)) = Except.ok table := by
  apply mapM_eq_ok_of_forall₂
  rw [NameTable.share, List.forall₂_map_left_iff, List.forall₂_same]
  rintro ⟨name, counts⟩ member
  simp only [mergeCounts_share some (fits (name, counts) member), ok_bind]
  rfl

theorem mergeTables_share (grow : FactorsFit factors substates root)
    {tables : List (NameTable (List α))} (fits : List.Forall₂ NameTable.Fits tables substates) :
    mergeTables (familyMaps substates factors) substates (shareTables factors tables) =
      .ok tables := by
  apply mapM_eq_ok_of_forall₂
  have lengths := fits.length_eq
  refine forall₂_of_getElem? ?_ fun state item table found present => ?_
  · simp [familyMaps, shareTables, grow.length_eq, lengths]
  · obtain ⟨size, known⟩ : ∃ size, substates[state]? = some size := by
      have below := (List.getElem?_eq_some_iff.mp present).1
      rw [lengths] at below
      exact ⟨_, List.getElem?_eq_getElem below⟩
    obtain ⟨factor, grows, -⟩ := grow.factor_of known
    have map : (familyMaps substates factors)[state]? = some (familyMap size factor) := by
      simp [familyMaps, zip_getElem? known grows]
    have shared : (shareTables factors tables)[state]? = some (table.share factor) := by
      simp [shareTables, zip_getElem? grows present]
    rw [zip_getElem? map (zip_getElem? known shared)] at found
    obtain rfl := Option.some.inj found
    exact mergeNames_share (grow.positive grows) (relation_of_forall₂ fits present known)

/-- A split lexicon that is merged again has the counts of names that it had and the totals, and the
counts of its tags are summed up from those of their names. -/
structure Lexicon.Restored (merged lexicon : Lexicon α) : Prop where
  substates : merged.substates = lexicon.substates
  wordCounts : merged.tables.wordCounts = lexicon.tables.wordCounts
  unseenSignatureCounts :
    merged.tables.unseenSignatureCounts = lexicon.tables.unseenSignatureCounts
  wordTotals : merged.tables.wordTotals = lexicon.tables.wordTotals
  unseenSignatureTotals :
    merged.tables.unseenSignatureTotals = lexicon.tables.unseenSignatureTotals
  totalTokens : merged.tables.totalTokens = lexicon.tables.totalTokens
  unseenTotal : merged.tables.unseenTotal = lexicon.tables.unseenTotal
  summed : merged.tables.Summed merged.substates

theorem Lexicon.merge_split {lexicon split : Lexicon α} (consistent : lexicon.Consistent)
    (grows : growthFactors lexicon.substates lexicon.root counts unbounded = .ok factors)
    (success : lexicon.split 0 counts unbounded stream = .ok (split, later)) :
    ∃ merged, split.merge (familyMaps lexicon.substates factors) = .ok merged ∧
      merged.Restored lexicon := by
  have fits := consistent.tables
  have grow := (growthFactors_delivers lexicon.substates lexicon.root counts unbounded
    any_overflow).of_ok grows
  have shares := split_shares fits grows success
  have grown : multiply lexicon.substates factors = .ok (products lexicon.substates factors) := by
    rw [Lexicon.split, grows, ok_bind] at success
    obtain ⟨_, grown, -⟩ := bind_eq_ok_iff.mp success
    obtain rfl := (multiply_delivers _ factors any_overflow).of_ok grown
    exact grown
  have known := grow.familyMaps_imageSize grown
  have onto := grow.onto
  have room : ∀ size ∈ lexicon.substates, size < Word.tableLimit := by
    intro size member
    obtain ⟨state, found⟩ := List.getElem?_of_mem member
    obtain ⟨product, here, fewer⟩ := exists_of_forall₂ onto.fewer.flip found
    exact Nat.lt_of_le_of_lt fewer
      (shares.room product (shares.substates_eq ▸ List.mem_of_getElem? here))
  have newAncestry : List.Forall₂ Ancestry.Fits split.ancestry (products lexicon.substates factors) := by
    rw [shares.ancestry_eq]
    exact grow.splitAncestries consistent.ancestry
  obtain ⟨ancestry, lineages, -⟩ := delivers_never_iff.mp <|
    mergeAncestries_delivers newAncestry onto.maps (not_crowded room)
  have length {tables : List (NameTable (List α))}
      (fits : List.Forall₂ NameTable.Fits tables lexicon.substates) :
      (shareTables factors tables).length = lexicon.substates.length := by
    simp [shareTables, grow.length_eq, fits.length_eq]
  have words : split.tables.wordCounts = shareTables factors lexicon.tables.wordCounts := by
    rw [shares.tables_eq]
    rfl
  have signatures : split.tables.unseenSignatureCounts =
      shareTables factors lexicon.tables.unseenSignatureCounts := by
    rw [shares.tables_eq]
    rfl
  refine ⟨{ split with
      substates := lexicon.substates
      ancestry
      tables := split.tables.retable lexicon.substates lexicon.tables.wordCounts
        lexicon.tables.unseenSignatureCounts }, ?_, ?_⟩
  · simp only [Lexicon.merge, known, ok_bind, checkSizes_eq_ok_iff.mpr room, words, signatures,
      fitTables_eq (length fits.wordCounts), fitTables_eq (length fits.unseenSignatureCounts),
      mergeTables_share grow fits.wordCounts, mergeTables_share grow fits.unseenSignatureCounts,
      lineages]
    rfl
  · rw [shares.tables_eq]
    exact ⟨rfl, rfl, rfl, rfl, rfl, rfl, rfl, rfl, rfl⟩

theorem Lexicon.split_grows {lexicon : Lexicon α} (fits : lexicon.tables.Fits lexicon.substates)
    (stream : γ) :
    Delivers Overflow
      (fun _ => ∃ factors,
        growthFactors lexicon.substates lexicon.root counts unbounded = .ok factors)
      (lexicon.split 0 counts unbounded stream) := by
  have grow := growthFactors_delivers lexicon.substates lexicon.root counts unbounded
    overflow_overflow
  cases grows : growthFactors lexicon.substates lexicon.root counts unbounded with
  | error fault =>
    rw [grows] at grow
    rw [Lexicon.split, grows]
    exact grow
  | ok factors =>
    rw [grows] at grow
    have product := multiply_delivers lexicon.substates factors overflow_overflow
    cases grown : multiply lexicon.substates factors with
    | error fault =>
      rw [grown] at product
      rw [Lexicon.split, grows, ok_bind, grown]
      exact product
    | ok substates =>
      rw [grown] at product
      obtain rfl := product
      exact (split_delivers fits grows grow grown 0 stream overflow_overflow).mono
        fun _ _ => ⟨factors, rfl⟩

/-- Merging undoes a split without noise: where grammar and lexicon were split alike and each
substate goes back to the one that it was split from, rules and counts of names are those from before
the split, whatever the weights. There may only be no room for the split, or for the grammar itself. -/
theorem Model.merge_undoes_split {model : Model α}
    (rules : model.grammar.rules.Fits model.substates)
    (ancestry : List.Forall₂ Ancestry.Fits model.grammar.ancestry model.substates)
    (lexicon : model.lexicon.Consistent) (same : model.lexicon.substates = model.substates)
    (counts : List Nat) (unbounded : Bool) (stream : γ) :
    Delivers Overflow (fun result => ∃ factors lexical,
        growthFactors model.substates model.grammar.root counts unbounded = .ok factors ∧
        growthFactors model.substates model.lexicon.root counts unbounded = .ok lexical ∧
        (∀ weights : List (List α), model.substates.length ≤ weights.length →
          Delivers model.grammar.Cramped (fun merged => merged.substates = model.substates ∧
              merged.root = model.grammar.root ∧ merged.rules = model.grammar.rules)
            (result.1.grammar.merge (familyMaps model.substates factors) weights)) ∧
        ∃ merged, result.1.lexicon.merge (familyMaps model.substates lexical) = .ok merged ∧
          merged.Restored model.lexicon)
      (model.split 0 0 counts unbounded stream) := by
  refine (Grammar.split_delivers rules 0 stream overflow_overflow).bind_ok
    fun grammar grammarSplit result => ?_
  obtain ⟨factors, grows, -⟩ := result
  refine (Lexicon.split_grows lexicon.tables grammar.2).bind_ok fun split lexiconSplit result => ?_
  obtain ⟨lexical, lexiconGrows⟩ := result
  have restored := Lexicon.merge_split lexicon lexiconGrows lexiconSplit
  rw [same] at lexiconGrows restored
  exact ⟨factors, lexical, grows, lexiconGrows, fun weights enough =>
    Grammar.merge_split rules ancestry grows grammarSplit enough, restored⟩

/-- The first family of the split category has no weight at all. -/
theorem sampleEstimator_merge_undoes_split :
    ∃ split later grammar lexicon,
      sampleEstimator.split 0 0 [1, 4] false () = .ok (split, later) ∧
      split.grammar.merge [[0], [0, 0, 1, 1]] [[1], [0, 0, 1, 3]] = .ok grammar ∧
      grammar.substates = [1, 2] ∧ grammar.rules = sampleEstimator.grammar.rules ∧
      split.lexicon.merge [[0], [0, 0, 1, 1]] = .ok lexicon ∧
      lexicon.Restored sampleEstimator.lexicon := by
  have rules : sampleEstimator.grammar.rules.Fits sampleEstimator.substates := sampleModel_rules_fit
  have consistent : sampleEstimator.lexicon.Consistent :=
    ⟨sampleModel_lexicon_consistent.ancestry, sampleModel_lexicon_consistent.tables⟩
  have undoes := Model.merge_undoes_split rules consistent.ancestry consistent rfl [1, 4] false ()
  have succeeds := isOk_split_sampleEstimator
  cases done : sampleEstimator.split 0 0 [1, 4] false () with
  | error fault => simp [done, Except.isOk, Except.toBool] at succeeds
  | ok result =>
    obtain ⟨split, later⟩ := result
    rw [done] at undoes
    obtain ⟨factors, lexical, grows, lexiconGrows, merges, lexicon, lexiconMerged, restored⟩ := undoes
    obtain rfl : [1, 2] = factors := Except.ok.inj (Eq.trans (by decide +kernel) grows)
    obtain rfl : [1, 2] = lexical := Except.ok.inj (Eq.trans (by decide +kernel) lexiconGrows)
    have maps : familyMaps sampleEstimator.substates [1, 2] = [[0], [0, 0, 1, 1]] := by decide +kernel
    have merge := merges [[1], [0, 0, 1, 3]] le_rfl
    rw [maps] at merge lexiconMerged
    cases merged : split.grammar.merge [[0], [0, 0, 1, 1]] [[(1 : Rat)], [0, 0, 1, 3]] with
    | error fault =>
      rw [merged] at merge
      exact (merge.2 sampleModel_room).elim
    | ok grammar =>
      rw [merged] at merge
      exact ⟨split, later, grammar, lexicon, rfl, merged, merge.1, merge.2.2, lexiconMerged, restored⟩

end LatentGrammar
