import LatentGrammar.Proofs.Counting.Emissions
import LatentGrammar.Proofs.Counting.Loops
import LatentGrammar.Proofs.Scoring.Outside
import LatentGrammar.Merging

namespace LatentGrammar

open Finset

variable {α : Type} [ExactScalar α] {allowed : Fault → Prop} {substates : List Nat}

/-- The entry for a substate of a category. -/
def tally (rows : List (List α)) (state s : Nat) : α := entry ((rows[state]?).getD []) s

theorem entry_addInto {totals values : List α} (same : values.length = totals.length) (s : Nat) :
    entry (Scalar.addInto totals values) s = entry totals s + entry values s := by
  induction totals generalizing values s with
  | nil =>
    obtain rfl := List.eq_nil_of_length_eq_zero same
    simp [Scalar.addInto, entry]
  | cons total totals ih =>
    cases values with
    | nil => simp at same
    | cons value values =>
      cases s with
      | zero => rfl
      | succ s => exact ih (by simpa using same) s

theorem tally_addInto {rows : List (List α)} {row values : List α} {state : Nat}
    (found : rows[state]? = some row) (same : values.length = row.length) (other s : Nat) :
    tally (rows.set state (Scalar.addInto row values)) other s =
      tally rows other s + if state = other then entry values s else 0 := by
  unfold tally
  obtain ⟨below, rfl⟩ := List.getElem?_eq_some_iff.mp found
  by_cases here : state = other
  · subst here
    simp [below, entry_addInto same]
  · simp [List.getElem?_set_ne here, here]

theorem tally_zeros {rows : List (List α)}
    (zeros : substates.mapM (fill · (0 : α)) = .ok rows) (state s : Nat) :
    tally rows state s = 0 := by
  have each : Delivers Any (fun rows : List (List α) => ∀ row ∈ rows, entry row s = 0)
      (substates.mapM (fill · 0)) := by
    apply Delivers.mapM_forall
    intro size _
    apply (delivers_any _).mono_ok
    intro row filled _
    rw [← (fill_eq_ok_iff.mp filled).2, entry_replicate_zero]
  unfold tally
  cases found : rows[state]? with
  | none => simp [entry]
  | some row => exact each.of_ok zeros row (List.mem_of_getElem? found)

namespace LatentTree

/-- The scores of a substate at the top of a tree, below it and around it. -/
def visit (tree : LatentTree α) (s : Nat) : α := tree.inside.score s * tree.outside.score s

variable {tree : LatentTree α} {mass : α}

theorem visit_eq_zero {s : Nat} (beyond : tree.substates ≤ s) : tree.visit s = 0 := by
  have absent : tree.inside.values[s]? = none := List.getElem?_eq_none beyond
  simp [visit, ScaledVector.score, absent]

theorem entry_posteriorIn (fits : tree.Fits substates) (positive : 0 < mass) (scale : Int)
    (s : Nat) :
    entry (tree.posteriorIn mass scale) s = tree.visit s / (mass * Scalar.scaleFactor scale) := by
  rw [posteriorIn_eq positive scale fits.top.outside]
  by_cases below : s < tree.substates
  · rw [entry_map_range below]
    rfl
  · rw [visit_eq_zero (Nat.le_of_not_lt below), zero_div]
    simp [entry, below]

theorem sum_preterminals (tree : LatentTree α) (f : LatentTree α → α) :
    (tree.preterminals.map f).sum =
      (tree.subtrees.map fun node => if node.isPreterminal then f node else 0).sum := by
  induction tree with
  | preterminal => simp [preterminals, subtrees, isPreterminal]
  | unary _ _ _ ih => simpa [preterminals, subtrees, isPreterminal] using ih
  | binary _ _ _ _ left right => simp [preterminals, subtrees, isPreterminal, left, right]

end LatentTree

namespace EmissionCounts

variable {counts : EmissionCounts α} {frame : LexiconFrame α} {policy : UnseenPolicy α}
  {state size : Nat}

theorem tagCounts_add {next : EmissionCounts α} {word : String} {position : Nat}
    {weights : List α} (success : counts.add policy state word position weights = .ok next) :
    ∃ tags, counts.tables.tagCounts[state]? = some tags ∧
      next.tables.tagCounts = counts.tables.tagCounts.set state (Scalar.addInto tags weights) := by
  obtain ⟨words, -, success⟩ := bind_eq_ok_iff.mp success
  obtain ⟨tags, found, success⟩ := bind_eq_ok_iff.mp success
  refine ⟨tags, fetch_eq_ok_iff.mp found, ?_⟩
  dsimp only at success
  split at success
  · obtain ⟨signatures, -, success⟩ := bind_eq_ok_iff.mp success
    obtain ⟨unseen, -, done⟩ := bind_eq_ok_iff.mp success
    obtain rfl := Except.ok.inj done
    rfl
  · obtain rfl := Except.ok.inj success
    rfl

theorem add_grows (inFrame : counts.InFrame frame) (found : frame.substates[state]? = some size)
    {weights : List α} (sized : HasSize weights size) (word : String) (position other s : Nat) :
    Delivers allowed
      (Grows (·.InFrame frame) (tally ·.tables.tagCounts other s) counts
        (if state = other then entry weights s else 0))
      (counts.add policy state word position weights) := by
  apply (add_delivers inFrame found sized word position).mono_ok
  intro next success kept
  constructor
  · exact kept
  · obtain ⟨tags, present, same⟩ := tagCounts_add success
    have tagsSized : HasSize tags size := relation_of_forall₂ inFrame.fits.tagCounts present found
    rw [same, tally_addInto present (sized.trans tagsSized.symm)]

/-- The lexicon counts the preterminals of a tree by their shares of the mass. -/
theorem countScored_grows (inFrame : counts.InFrame frame) {tree : LatentTree α}
    (fits : tree.Fits frame.substates) {mass : α} (massed : tree.mass = .ok mass)
    (positive : 0 < mass) (other s : Nat) :
    Delivers allowed
      (Grows (·.InFrame frame) (tally ·.tables.tagCounts other s) counts
        (tree.subtrees.map fun node => if node.isPreterminal ∧ node.state = other then
          node.visit s / (mass * Scalar.scaleFactor tree.inside.scale) else 0).sum)
      (counts.countScored policy tree) := by
  let share (node : LatentTree α) : α := if node.state = other then
    node.visit s / (mass * Scalar.scaleFactor tree.inside.scale) else 0
  have total : (tree.subtrees.map fun node => if node.isPreterminal ∧ node.state = other then
      node.visit s / (mass * Scalar.scaleFactor tree.inside.scale) else 0).sum =
      (tree.preterminals.zipIdx.map fun entry => share entry.1).sum := by
    have numbered : (tree.preterminals.zipIdx.map fun entry => share entry.1) =
        (tree.preterminals.zipIdx.map Prod.fst).map share := by
      rw [List.map_map]
      rfl
    rw [numbered, List.zipIdx_map_fst, tree.sum_preterminals]
    simp only [share, ite_and]
  simp only [countScored, massed, ok_bind]
  rw [if_neg (not_le.mpr positive), total]
  apply Delivers.foldlM_grows
  · exact inFrame
  · intro counts (node, position) member inFrame
    have leaf : node ∈ tree.preterminals :=
      List.mem_of_getElem? (List.mem_zipIdx_iff_getElem?.mp member)
    have nodeFits := fits_of_leaf fits leaf
    simp only [share]
    rw [← LatentTree.entry_posteriorIn nodeFits positive]
    have sized := LatentTree.length_posteriorIn nodeFits mass tree.inside.scale
    cases node with
    | preterminal state word scores =>
      exact add_grows inFrame nodeFits.substates_eq sized word position other s
    | unary state scores child =>
      rw [LatentTree.preterminals_eq_filter] at leaf
      exact absurd (List.mem_filter.mp leaf).2 Bool.false_ne_true
    | binary state scores left right =>
      rw [LatentTree.preterminals_eq_filter] at leaf
      exact absurd (List.mem_filter.mp leaf).2 Bool.false_ne_true

end EmissionCounts

namespace Model

variable {weights : List (List α)} {size : Nat}

theorem addWeights_grows (weighted : List.Forall₂ HasSize weights substates) {state : Nat}
    (found : substates[state]? = some size) {posterior : List α} (sized : HasSize posterior size)
    (other s : Nat) :
    Delivers allowed
      (Grows (List.Forall₂ HasSize · substates) (tally · other s) weights
        (if state = other then entry posterior s else 0))
      (addWeights weights (state, posterior)) := by
  obtain ⟨row, present, rowSized⟩ := exists_of_forall₂ weighted found
  simp only [addWeights, fetch_eq_ok_iff.mpr present, ok_bind]
  constructor
  · exact forall₂_set weighted found ((Scalar.length_addInto row posterior).trans rowSized)
  · exact tally_addInto present (sized.trans rowSized.symm) other s

theorem addPosteriors_grows (weighted : List.Forall₂ HasSize weights substates)
    {tree : LatentTree α} (fits : tree.Fits substates) {mass : α} (positive : 0 < mass)
    (scale : Int) (other s : Nat) :
    Delivers allowed
      (Grows (List.Forall₂ HasSize · substates) (tally · other s) weights
        (tree.subtrees.map fun node => if node.state = other then
          node.visit s / (mass * Scalar.scaleFactor scale) else 0).sum)
      (((tree.subtrees.map LatentTree.state).zip
        (tree.subtrees.map (LatentTree.posteriorIn mass scale))).foldlM addWeights weights) := by
  rw [List.zip_map', List.foldlM_map]
  apply Delivers.foldlM_grows
  · exact weighted
  · intro weights node member weighted
    have nodeFits := fits.of_mem member
    rw [← LatentTree.entry_posteriorIn nodeFits positive]
    exact addWeights_grows weighted nodeFits.substates_eq
      (LatentTree.length_posteriorIn nodeFits mass scale) other s

end Model

end LatentGrammar
