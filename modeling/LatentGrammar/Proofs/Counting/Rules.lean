import LatentGrammar.Proofs.Counting.Emissions
import LatentGrammar.Grammar.Count

namespace LatentGrammar

variable {α : Type} {allowed : Fault → Prop} {substates : List Nat}

namespace RuleTable

private theorem lookup_ne {entries : List (Production × RuleBlock α)} {key other : Production}
    {block : RuleBlock α} (different : other ≠ key) :
    ((key, block) :: entries).lookup other = entries.lookup other := by
  simp [List.lookup_cons, beq_false_of_ne different]

theorem find?_insert (table : RuleTable α) (key other : Production) (block : RuleBlock α) :
    (table.insert key block).find? other =
      if other = key then some block else table.find? other := by
  obtain ⟨entries⟩ := table
  simp only [RuleTable.insert, RuleTable.find?]
  by_cases same : other = key
  · subst same
    rw [if_pos rfl]
    induction entries with
    | nil => exact List.lookup_cons_self
    | cons entry rest ih =>
      obtain ⟨first, old⟩ := entry
      unfold place
      split
      · exact List.lookup_cons_self
      · rename_i different
        split
        · exact List.lookup_cons_self
        · rw [lookup_ne (by simpa using different)]
          exact ih
  · rw [if_neg same]
    induction entries with
    | nil => exact lookup_ne same
    | cons entry rest ih =>
      obtain ⟨first, old⟩ := entry
      unfold place
      split
      · rename_i matched
        rw [lookup_ne same, lookup_ne (eq_of_beq matched ▸ same)]
      · split
        · exact lookup_ne same
        · by_cases matched : other = first
          · rw [matched, List.lookup_cons_self, List.lookup_cons_self]
          · rw [lookup_ne matched, lookup_ne matched, ih]

theorem Fits.insert {table : RuleTable α} (fits : table.Fits substates) {key : Production}
    {block : RuleBlock α} (sized : block.Fits key substates) :
    (table.insert key block).Fits substates := by
  obtain ⟨entries⟩ := table
  simp only [RuleTable.Fits, RuleTable.insert] at *
  induction entries with
  | nil => simpa [place] using sized
  | cons entry rest ih =>
    obtain ⟨here, below⟩ := List.forall_mem_cons.mp fits
    obtain ⟨first, old⟩ := entry
    unfold place
    split
    · exact List.forall_mem_cons.mpr ⟨sized, below⟩
    · split
      · exact List.forall_mem_cons.mpr ⟨sized, fits⟩
      · exact List.forall_mem_cons.mpr ⟨here, ih below⟩

end RuleTable

namespace RuleBlock

variable {block counts rule : RuleBlock α} {key : Production} {parents lefts rights i j k : Nat}

theorem cellCount_delivers (parents lefts rights : Nat) (overflow : allowed .overflow) :
    Delivers allowed (· = parents * lefts * rights) (cellCount parents lefts rights) := by
  apply (delivers_word overflow).bind
  intro rows same
  subst same
  apply (delivers_word overflow).bind
  intro count same
  subst same
  exact Delivers.ite (fun _ => rfl) fun _ => overflow

theorem zeros_delivers [Zero α] (dimensions : key.dimensions substates = .ok (parents, lefts, rights))
    (overflow : allowed .overflow) :
    Delivers allowed (·.Fits key substates)
      (zeros parents lefts rights : Except Fault (RuleBlock α)) := by
  apply (cellCount_delivers parents lefts rights overflow).bind
  intro count same
  exact ⟨parents, lefts, rights, dimensions, rfl, rfl, rfl, by simp [same]⟩

theorem Sized.fits (sized : block.Sized parents lefts rights)
    (dimensions : key.dimensions substates = .ok (parents, lefts, rights)) :
    block.Fits key substates :=
  ⟨parents, lefts, rights, dimensions, sized⟩

theorem Fits.sized (fits : block.Fits key substates)
    (dimensions : key.dimensions substates = .ok (parents, lefts, rights)) :
    block.Sized parents lefts rights := by
  obtain ⟨_, _, _, again, sized⟩ := fits
  cases dimensions.symm.trans again
  exact sized

theorem Sized.map (sized : block.Sized parents lefts rights) (f : α → α) :
    (block.map f).Sized parents lefts rights :=
  ⟨sized.parents_eq, sized.lefts_eq, sized.rights_eq, by simpa [RuleBlock.map] using sized.size_eq⟩

theorem Sized.cell_map [Zero α] (sized : block.Sized parents lefts rights) (parent : i < parents)
    (left : j < lefts) (right : k < rights) (f : α → α) :
    (block.map f).cell i j k = f (block.cell i j k) := by
  have inside := sized.offset_lt parent left right
  have offset : (block.map f).offset i j k = block.offset i j k := rfl
  rw [cell, cell, offset]
  simp [RuleBlock.map, inside]

theorem Sized.mapCells (sized : block.Sized parents lefts rights) (f : Nat → Nat → α → α) :
    (block.mapCells f).Sized parents lefts rights :=
  ⟨sized.parents_eq, sized.lefts_eq, sized.rights_eq,
    by simpa [RuleBlock.mapCells] using sized.size_eq⟩

theorem add_delivers [Add α] (sized : counts.Sized parents lefts rights) (parent : i < parents)
    (left : j < lefts) (right : k < rights) (value : α) :
    Delivers allowed (·.Sized parents lefts rights) (counts.add i j k value) := by
  have inside := sized.offset_lt parent left right
  simp only [add, dif_pos inside]
  exact ⟨sized.parents_eq, sized.lefts_eq, sized.rights_eq, by simpa using sized.size_eq⟩

variable [Scalar α] {factor : α} {outside child left right : List α}

theorem countUnary_delivers (sized : counts.Sized parents child.length 1)
    (ruleSized : rule.Sized parents child.length 1) (outsideSized : outside.length = parents) :
    Delivers allowed (·.Sized parents child.length 1)
      (counts.countUnary rule factor outside child) := by
  refine Delivers.stepBelow sized fun counts i below sized => ?_
  rw [ruleSized.parents_eq] at below
  apply (delivers_fetch_below (outsideSized ▸ below)).bind
  intro _ _
  apply Delivers.ite
  · intro _
    exact sized
  intro _
  refine Delivers.stepBelow sized fun counts j inside sized => ?_
  rw [ruleSized.lefts_eq] at inside
  simp only [ruleSized.get_eq below inside Nat.one_pos]
  apply (delivers_fetch_below inside).bind
  intro _ _
  exact add_delivers sized below inside Nat.one_pos _

theorem countBinary_delivers (sized : counts.Sized parents left.length right.length)
    (ruleSized : rule.Sized parents left.length right.length)
    (outsideSized : outside.length = parents) :
    Delivers allowed (·.Sized parents left.length right.length)
      (counts.countBinary rule factor outside left right) := by
  refine Delivers.stepBelow sized fun counts i below sized => ?_
  rw [ruleSized.parents_eq] at below
  apply (delivers_fetch_below (outsideSized ▸ below)).bind
  intro _ _
  apply Delivers.ite
  · intro _
    exact sized
  intro _
  refine Delivers.stepBelow sized fun counts j inLeft sized => ?_
  rw [ruleSized.lefts_eq] at inLeft
  apply (delivers_fetch_below inLeft).bind
  intro _ _
  apply Delivers.ite
  · intro _
    exact sized
  intro _
  refine Delivers.stepBelow sized fun counts k inRight sized => ?_
  rw [ruleSized.rights_eq] at inRight
  simp only [ruleSized.get_eq below inLeft inRight]
  apply (delivers_fetch_below inRight).bind
  intro _ _
  exact add_delivers sized below inLeft inRight _

omit [Scalar α] in
theorem Sized.size_eq_width (sized : block.Sized parents lefts rights) :
    block.cells.size = parents * block.width := by
  rw [sized.size_eq, width, sized.lefts_eq, sized.rights_eq, Nat.mul_assoc]

theorem Sized.rowTotal_delivers (sized : block.Sized parents lefts rights) (below : i < parents) :
    Delivers allowed (fun _ => True) (block.rowTotal i) := by
  have inside : (i + 1) * block.width ≤ block.cells.size :=
    sized.size_eq_width ▸ Nat.mul_le_mul_right _ below
  simp [rowTotal, inside]

theorem Sized.normalize_delivers (sized : block.Sized parents lefts rights) {totals : List α}
    (length : totals.length = parents) (threshold : α) :
    Delivers allowed (·.Sized parents lefts rights) (block.normalize threshold totals) := by
  unfold normalize
  refine (Delivers.length_tabulate fun i below => ?_).bind fun rows _ => ?_
  · rw [sized.parents_eq] at below
    exact delivers_fetch_below (length ▸ below)
  · have enough : ¬block.cells.size < block.parents * block.width := by
      rw [sized.size_eq_width, sized.parents_eq]
      exact Nat.lt_irrefl _
    rw [if_neg enough]
    exact sized.mapCells _

theorem Sized.smooth_delivers (sized : block.Sized parents lefts rights) {ancestries : List Ancestry}
    {parent : Nat} (known : parent < ancestries.length) (smoothing : Smoothing α) :
    Delivers allowed (·.Sized parents lefts rights)
      (block.smooth smoothing ancestries parent) := by
  unfold smooth
  refine (Delivers.length_tabulate fun number below => ?_).bind fun columns _ =>
    sized.mapCells _
  refine (Delivers.length_tabulate fun i row => ?_).bind fun column _ => ?_
  · have inside : i * block.width + number < block.cells.size := by
      rw [sized.size_eq_width, ← sized.parents_eq]
      exact mul_add_lt_mul row below
    simp [inside]
  · exact (delivers_fetch_below known).bind fun _ _ => trivial

end RuleBlock

theorem Production.parent_of_dimensions {key : Production} {parents lefts rights : Nat}
    (dimensions : key.dimensions substates = .ok (parents, lefts, rights)) :
    substates[key.parent]? = some parents := by
  cases key with
  | unary parent child => exact (dimensions_unary_iff.mp dimensions).1
  | binary parent left right => exact (dimensions_binary_iff.mp dimensions).1

theorem LatentTree.Fits.dimensions {tree : LatentTree α} (fits : tree.Fits substates)
    {key : Production} (expands : tree.rule? = some key) :
    ∃ parents lefts rights, key.dimensions substates = .ok (parents, lefts, rights) := by
  cases tree with
  | preterminal => cases expands
  | unary state scores child =>
    obtain rfl := Option.some.inj expands
    exact ⟨_, _, _, fits.dimensions_unary⟩
  | binary state scores left right =>
    obtain rfl := Option.some.inj expands
    exact ⟨_, _, _, fits.dimensions_binary⟩

namespace RuleCounts

/-- Counts in a frame have blocks for the substates of the frame. -/
structure InFrame (counts : RuleCounts α) (frame : GrammarFrame α) : Prop where
  frame_eq : counts.toGrammarFrame = frame
  fits : counts.rules.Fits frame.substates

variable {counts : RuleCounts α} {frame : GrammarFrame α} {key : Production}
  {parents lefts rights : Nat}

theorem InFrame.insert (inFrame : counts.InFrame frame) {block : RuleBlock α}
    (fits : block.Fits key frame.substates) :
    { counts with rules := counts.rules.insert key block }.InFrame frame :=
  ⟨inFrame.frame_eq, inFrame.fits.insert fits⟩

variable [Scalar α]

theorem block_delivers (inFrame : counts.InFrame frame)
    (dimensions : key.dimensions frame.substates = .ok (parents, lefts, rights))
    (overflow : allowed .overflow) :
    Delivers allowed (·.Fits key frame.substates) (counts.block key (parents, lefts, rights)) := by
  unfold block
  split
  · rename_i found
    exact inFrame.fits.find? found
  · exact RuleBlock.zeros_delivers dimensions overflow

theorem countTopEvenly_delivers (inFrame : counts.InFrame frame) {tree : LatentTree α}
    (fits : tree.Fits frame.substates) (overflow : allowed .overflow) :
    Delivers allowed (·.InFrame frame) (counts.countTopEvenly tree) := by
  unfold countTopEvenly
  cases expands : tree.rule? with
  | none => exact inFrame
  | some key =>
    obtain ⟨parents, lefts, rights, dimensions⟩ := fits.dimensions expands
    have known : key.dimensions counts.substates = .ok (parents, lefts, rights) := by
      rw [inFrame.frame_eq]
      exact dimensions
    simp only [known]
    apply (block_delivers inFrame dimensions overflow).bind
    intro block sized
    exact inFrame.insert (((sized.sized dimensions).map _).fits dimensions)

theorem countEvenly_delivers (inFrame : counts.InFrame frame) {tree : LatentTree α}
    (fits : tree.Fits frame.substates) (overflow : allowed .overflow) :
    Delivers allowed (·.InFrame frame) (counts.countEvenly tree) :=
  Delivers.foldlM inFrame fun _ _ member inFrame =>
    countTopEvenly_delivers inFrame (fits.of_mem member) overflow

theorem countScoredTop_delivers {previous : Grammar α}
    (rules : previous.rules.Fits frame.substates) (inFrame : counts.InFrame frame)
    {tree : LatentTree α} (fits : tree.Fits frame.substates) (overflow : allowed .overflow)
    (mass : α) (scale : Int) :
    Delivers allowed (·.InFrame frame) (countScoredTop previous mass scale counts tree) := by
  cases tree with
  | preterminal => exact inFrame
  | unary state scores child =>
    simp only [countScoredTop, LatentTree.rule?]
    cases found : previous.rule? (.unary state child.state) with
    | none => exact inFrame
    | some rule =>
      obtain ⟨top, below⟩ := LatentTree.fits_unary.mp fits
      have ruleSized := (rules.find? found).unary top.inside below.substates_eq
      have dimensions := fits.dimensions_unary
      simp only [ruleSized.parents_eq, ruleSized.lefts_eq, ruleSized.rights_eq]
      apply (block_delivers inFrame dimensions overflow).bind
      intro block blockFits
      refine (RuleBlock.countUnary_delivers (blockFits.sized dimensions) ruleSized
        top.outside).bind fun block sized => ?_
      exact inFrame.insert (sized.fits dimensions)
  | binary state scores left right =>
    simp only [countScoredTop, LatentTree.rule?]
    cases found : previous.rule? (.binary state left.state right.state) with
    | none => exact inFrame
    | some rule =>
      obtain ⟨top, leftBelow, rightBelow⟩ := LatentTree.fits_binary.mp fits
      have ruleSized :=
        (rules.find? found).binary top.inside leftBelow.substates_eq rightBelow.substates_eq
      have dimensions := fits.dimensions_binary
      simp only [ruleSized.parents_eq, ruleSized.lefts_eq, ruleSized.rights_eq]
      apply (block_delivers inFrame dimensions overflow).bind
      intro block blockFits
      refine (RuleBlock.countBinary_delivers (blockFits.sized dimensions) ruleSized
        top.outside).bind fun block sized => ?_
      exact inFrame.insert (sized.fits dimensions)

theorem countScored_delivers {previous : Grammar α} (rules : previous.rules.Fits frame.substates)
    (inFrame : counts.InFrame frame) {tree : LatentTree α} (fits : tree.Fits frame.substates)
    (nonempty : 0 < tree.substates) (overflow : allowed .overflow) :
    Delivers allowed (·.InFrame frame) (counts.countScored previous tree) := by
  apply (LatentTree.delivers_mass nonempty).bind
  intro mass _
  apply Delivers.ite
  · intro _
    exact inFrame
  intro _
  exact Delivers.foldlM inFrame fun _ _ member inFrame =>
    countScoredTop_delivers rules inFrame (fits.of_mem member) overflow mass _

omit [Scalar α] in
theorem mapScoresM_delivers {table : RuleTable α}
    {f : Production → RuleBlock α → Except Fault (RuleBlock α)}
    (each : ∀ entry ∈ table.entries,
      Delivers allowed (·.Fits entry.1 substates) (f entry.1 entry.2)) :
    Delivers allowed (·.Fits substates) (table.mapScoresM f) := by
  have mapped : Delivers allowed (fun entries => ∀ entry ∈ entries, entry.2.Fits entry.1 substates)
      (table.entries.mapM fun entry => return (entry.1, ← f entry.1 entry.2)) :=
    Delivers.mapM_forall fun entry member => (each entry member).bind fun _ fits => fits
  exact mapped.bind fun _ fits => fits

theorem after_delivers {grammar : Grammar α} (rules : grammar.rules.Fits grammar.substates)
    (overflow : allowed .overflow) :
    Delivers allowed (·.InFrame grammar.toGrammarFrame) (after grammar) := by
  refine (mapScoresM_delivers fun entry member => ?_).bind fun rules fits => ⟨rfl, fits⟩
  obtain ⟨parents, lefts, rights, dimensions, sized⟩ := rules entry member
  rw [sized.parents_eq, sized.lefts_eq, sized.rights_eq]
  exact RuleBlock.zeros_delivers dimensions overflow

theorem addTotals_delivers {totals : List (List α)}
    (sized : List.Forall₂ HasSize totals substates) {entry : Production × RuleBlock α}
    (fits : entry.2.Fits entry.1 substates) :
    Delivers allowed (List.Forall₂ HasSize · substates) (addTotals totals entry) := by
  obtain ⟨key, block⟩ := entry
  obtain ⟨parents, lefts, rights, dimensions, blockSized⟩ := fits
  obtain ⟨rows, foundRows, rowsSized⟩ :=
    exists_of_forall₂ sized (Production.parent_of_dimensions dimensions)
  have added : Delivers allowed (fun values => values.length = rows.length ∧
      ∀ (i : Nat) value, values[i]? = some value → True)
      (rows.zipIdx.mapM fun entry => return entry.1 + (← block.rowTotal entry.2)) := by
    apply Delivers.mapM_zipIdx
    intro total i inside
    have below : i < parents := rowsSized ▸ (List.getElem?_eq_some_iff.mp inside).1
    exact (blockSized.rowTotal_delivers below).bind fun _ _ => trivial
  unfold addTotals
  simp only [fetch_eq_ok_iff.mpr foundRows]
  apply added.bind
  intro values same
  exact forall₂_set sized (Production.parent_of_dimensions dimensions) (same.1.trans rowsSized)

theorem totals_delivers {table : RuleTable α} (fits : table.Fits substates)
    (overflow : allowed .overflow) :
    Delivers allowed (List.Forall₂ HasSize · substates) (totals substates table) := by
  apply (delivers_zero_rows substates overflow).bind
  intro start sized
  apply Delivers.foldlM
  · exact sized
  · intro totals entry member sized
    exact addTotals_delivers sized (fits entry member)

theorem normalizeRule_delivers {totals : List (List α)} (inFrame : counts.InFrame frame)
    (sized : List.Forall₂ HasSize totals frame.substates)
    (ancestry : List.Forall₂ Ancestry.Fits frame.ancestry frame.substates) {block : RuleBlock α}
    (fits : block.Fits key frame.substates) :
    Delivers allowed (·.Fits key frame.substates) (counts.normalizeRule totals key block) := by
  obtain ⟨parents, lefts, rights, dimensions, blockSized⟩ := fits
  have found := Production.parent_of_dimensions dimensions
  obtain ⟨rows, foundRows, rowsSized⟩ := exists_of_forall₂ sized found
  have known : key.parent < counts.ancestry.length := by
    rw [inFrame.frame_eq, ancestry.length_eq]
    exact (List.getElem?_eq_some_iff.mp found).1
  unfold normalizeRule
  simp only [fetch_eq_ok_iff.mpr foundRows]
  apply (blockSized.normalize_delivers rowsSized counts.threshold).bind
  intro block sized
  refine Delivers.ite (fun _ => ?_) fun _ => sized.fits dimensions
  exact (sized.smooth_delivers known counts.smoothing).mono fun block sized =>
    sized.fits dimensions

theorem normalize_delivers (inFrame : counts.InFrame frame)
    (ancestry : List.Forall₂ Ancestry.Fits frame.ancestry frame.substates)
    (overflow : allowed .overflow) :
    Delivers allowed (fun grammar => grammar.toGrammarFrame = frame ∧
      grammar.rules.Fits frame.substates) counts.normalize := by
  have same : counts.substates = frame.substates := congrArg _ inFrame.frame_eq
  unfold normalize
  rw [same]
  apply (totals_delivers inFrame.fits overflow).bind
  intro totals sized
  refine (mapScoresM_delivers fun entry member =>
    normalizeRule_delivers inFrame sized ancestry (inFrame.fits entry member)).bind
    fun rules fits => ⟨inFrame.frame_eq, fits⟩

theorem perturbRules_fits {γ : Type} [Draws γ α] (randomness : α)
    {entries : List (Production × RuleBlock α)}
    (fits : ∀ entry ∈ entries, entry.2.Fits entry.1 substates) (stream : γ) :
    ∀ entry ∈ (perturbRules randomness entries stream).1, entry.2.Fits entry.1 substates := by
  induction entries generalizing stream with
  | nil => exact fits
  | cons entry rest ih =>
    obtain ⟨key, block⟩ := entry
    obtain ⟨here, below⟩ := List.forall_mem_cons.mp fits
    obtain ⟨parents, lefts, rights, dimensions, sized⟩ := here
    refine List.forall_mem_cons.mpr ⟨⟨parents, lefts, rights, dimensions, sized.parents_eq,
      sized.lefts_eq, sized.rights_eq, ?_⟩, ih below _⟩
    simpa using sized.size_eq

theorem estimate_delivers {γ : Type} [Draws γ α] (inFrame : counts.InFrame frame)
    (ancestry : List.Forall₂ Ancestry.Fits frame.ancestry frame.substates)
    (overflow : allowed .overflow) (randomness : α) (stream : γ) :
    Delivers allowed (fun (grammar, _) => grammar.toGrammarFrame = frame ∧
      grammar.rules.Fits frame.substates) (counts.estimate randomness stream) := by
  have normalized (rules : List (Production × RuleBlock α)) (later : γ)
      (fits : ∀ entry ∈ rules, entry.2.Fits entry.1 frame.substates) :
      Delivers allowed (fun (grammar, _) => grammar.toGrammarFrame = frame ∧
        grammar.rules.Fits frame.substates) (do
          return (← { counts with rules := ⟨rules⟩ }.normalize, later)) := by
    have noisy : { counts with rules := ⟨rules⟩ }.InFrame frame := ⟨inFrame.frame_eq, fits⟩
    exact (normalize_delivers noisy ancestry overflow).bind fun _ done => done
  unfold estimate
  split
  rename_i rules later drawn
  split at drawn
  · rw [Prod.ext_iff] at drawn
    obtain rfl : _ = rules := drawn.1
    exact normalized _ _ (perturbRules_fits randomness inFrame.fits stream)
  · obtain ⟨rfl, rfl⟩ := Prod.ext_iff.mp drawn
    exact normalized _ _ inFrame.fits

end RuleCounts

end LatentGrammar
