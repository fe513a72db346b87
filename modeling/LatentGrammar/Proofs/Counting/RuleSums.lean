import LatentGrammar.Proofs.Counting.Loops
import LatentGrammar.Proofs.Counting.Rules
import LatentGrammar.Proofs.Scoring.Sums

namespace LatentGrammar

open Finset

variable {α : Type} {allowed : Fault → Prop} {substates : List Nat}

/-- A row and a column below the number of columns are told by the place of the cell. -/
theorem mul_add_inj {row row' column column' columns : Nat} (inside : column < columns)
    (inside' : column' < columns)
    (same : row * columns + column = row' * columns + column') : row = row' ∧ column = column' := by
  have columnsEqual : column = column' := by
    have left := congrArg (· % columns) same
    simpa [Nat.mul_add_mod', Nat.mod_eq_of_lt inside, Nat.mod_eq_of_lt inside'] using left
  subst columnsEqual
  have positive : 0 < columns := by omega
  exact ⟨Nat.eq_of_mul_eq_mul_right positive (by omega), rfl⟩

namespace RuleBlock

variable {block counts rule : RuleBlock α} {parents lefts rights i j k a b c : Nat}

/-- Every combination of substates has a cell of its own. -/
theorem Sized.offset_inj (sized : block.Sized parents lefts rights) (left : j < lefts)
    (left' : b < lefts) (right : k < rights) (right' : c < rights)
    (same : block.offset i j k = block.offset a b c) : i = a ∧ j = b ∧ k = c := by
  unfold offset at same
  rw [sized.lefts_eq, sized.rights_eq] at same
  obtain ⟨pairs, rfl⟩ := mul_add_inj right right' same
  obtain ⟨rfl, rfl⟩ := mul_add_inj left left' pairs
  exact ⟨rfl, rfl, rfl⟩

variable [ExactScalar α] {value amount factor : α} {outside child left right : List α}

theorem add_grows (sized : counts.Sized parents lefts rights) (parent : i < parents)
    (inLeft : j < lefts) (inRight : k < rights) (parent' : a < parents) (inLeft' : b < lefts)
    (inRight' : c < rights) {condition : Prop} [Decidable condition]
    (chosen : condition ↔ i = a ∧ j = b ∧ k = c) (equal : condition → amount = value) :
    Delivers allowed
      (Grows (·.Sized parents lefts rights) (·.cell i j k) counts (if condition then amount else 0))
      (counts.add a b c value) := by
  have here := sized.offset_lt parent inLeft inRight
  have there := sized.offset_lt parent' inLeft' inRight'
  simp only [add, dif_pos there]
  constructor
  · exact ⟨sized.parents_eq, sized.lefts_eq, sized.rights_eq, by simpa using sized.size_eq⟩
  · show (((counts.cells.set _ _ there)[counts.offset i j k]?).getD 0) = _
    by_cases holds : condition
    · obtain ⟨rfl, rfl, rfl⟩ := chosen.mp holds
      simp [cell, holds, equal holds, here]
    · have different : counts.offset a b c ≠ counts.offset i j k := by
        intro same
        obtain ⟨rfl, rfl, rfl⟩ := sized.offset_inj inLeft' inLeft inRight' inRight same
        exact holds (chosen.mpr ⟨rfl, rfl, rfl⟩)
      rw [if_neg holds, add_zero, Array.getElem?_set_ne there different]
      rfl

theorem fetch_eq_entry {values : List α} {n : Nat} (below : n < values.length) :
    fetch values n = .ok (entry values n) := by
  simp [entry, below]

theorem countUnary_grows (sized : counts.Sized parents child.length 1)
    (ruleSized : rule.Sized parents child.length 1) (outsideSized : outside.length = parents)
    (parent : i < parents) (inside : j < child.length) :
    Delivers allowed
      (Grows (·.Sized parents child.length 1) (·.cell i j 0) counts
        (entry outside i * factor * rule.cell i j 0 * entry child j))
      (counts.countUnary rule factor outside child) := by
  suffices once : Delivers allowed
      (Grows (·.Sized parents child.length 1) (·.cell i j 0) counts
        (if True then entry outside i * factor * rule.cell i j 0 * entry child j else 0))
      (counts.countUnary rule factor outside child) by
    simpa using once
  refine Delivers.stepBelow_once (ruleSized.parents_eq.symm ▸ parent) ?_ ?_
  · exact sized
  intro counts a below sized
  rw [ruleSized.parents_eq] at below
  simp only [fetch_eq_entry (outsideSized ▸ below), ok_bind]
  apply Delivers.ite
  · intro zero
    have vanishes : entry outside a * factor = 0 := ExactScalar.beq_iff.mp zero
    refine delivers_pure.mpr (.skip sized ?_)
    rintro ⟨-, rfl⟩
    simp [vanishes]
  · intro _
    refine Delivers.stepBelow_once (ruleSized.lefts_eq.symm ▸ inside) ?_ ?_
    · exact sized
    intro counts b inLeft sized
    rw [ruleSized.lefts_eq] at inLeft
    simp only [ruleSized.get_eq below inLeft Nat.one_pos, fetch_eq_entry inLeft, ok_bind]
    apply add_grows sized parent inside Nat.one_pos below inLeft Nat.one_pos
    · simp
    · rintro ⟨⟨-, rfl⟩, rfl⟩
      rfl

theorem countBinary_grows (sized : counts.Sized parents left.length right.length)
    (ruleSized : rule.Sized parents left.length right.length)
    (outsideSized : outside.length = parents) (parent : i < parents) (inLeft : j < left.length)
    (inRight : k < right.length) :
    Delivers allowed
      (Grows (·.Sized parents left.length right.length) (·.cell i j k) counts
        (entry outside i * factor * entry left j * rule.cell i j k * entry right k))
      (counts.countBinary rule factor outside left right) := by
  suffices once : Delivers allowed
      (Grows (·.Sized parents left.length right.length) (·.cell i j k) counts
        (if True then entry outside i * factor * entry left j * rule.cell i j k * entry right k
          else 0))
      (counts.countBinary rule factor outside left right) by
    simpa using once
  refine Delivers.stepBelow_once (ruleSized.parents_eq.symm ▸ parent) ?_ ?_
  · exact sized
  intro counts a below sized
  rw [ruleSized.parents_eq] at below
  simp only [fetch_eq_entry (outsideSized ▸ below), ok_bind]
  apply Delivers.ite
  · intro zero
    have vanishes : entry outside a * factor = 0 := ExactScalar.beq_iff.mp zero
    refine delivers_pure.mpr (.skip sized ?_)
    rintro ⟨-, rfl⟩
    simp [vanishes]
  intro _
  refine Delivers.stepBelow_once (ruleSized.lefts_eq.symm ▸ inLeft) ?_ ?_
  · exact sized
  intro counts b belowLeft sized
  rw [ruleSized.lefts_eq] at belowLeft
  simp only [fetch_eq_entry belowLeft, ok_bind]
  apply Delivers.ite
  · intro zero
    have vanishes : entry outside a * factor * entry left b = 0 := ExactScalar.beq_iff.mp zero
    refine delivers_pure.mpr (.skip sized ?_)
    rintro ⟨⟨-, rfl⟩, rfl⟩
    simp [vanishes]
  intro _
  refine Delivers.stepBelow_once (ruleSized.rights_eq.symm ▸ inRight) ?_ ?_
  · exact sized
  intro counts c belowRight sized
  rw [ruleSized.rights_eq] at belowRight
  simp only [ruleSized.get_eq below belowLeft belowRight, fetch_eq_entry belowRight, ok_bind]
  apply add_grows sized parent inLeft inRight below belowLeft belowRight
  · simp [and_assoc]
  · rintro ⟨⟨⟨-, rfl⟩, rfl⟩, rfl⟩
    rfl

end RuleBlock

theorem RuleTable.cell_insert [Zero α] (table : RuleTable α) (key other : Production)
    (block : RuleBlock α) (i j k : Nat) :
    (table.insert key block).cell other i j k =
      if other = key then block.cell i j k else table.cell other i j k := by
  unfold RuleTable.cell
  rw [find?_insert]
  by_cases same : other = key <;> simp [same]

/-- A cell of a rule between categories with the given numbers of substates. -/
structure Place (substates : List Nat) where
  key : Production
  parent : Nat
  left : Nat
  right : Nat
  inside : ∃ parents lefts rights, key.dimensions substates = .ok (parents, lefts, rights) ∧
    parent < parents ∧ left < lefts ∧ right < rights

/-- The content of a place. -/
def RuleTable.at [Zero α] (table : RuleTable α) (place : Place substates) : α :=
  table.cell place.key place.parent place.left place.right

/-- The score of the rule at the top of a tree, used with given substates, together with the scores
around it. -/
def LatentTree.use [Scalar α] (grammar : Grammar α) : LatentTree α → Nat → Nat → Nat → α
  | preterminal .., _, _, _ => 0
  | unary state scores child, i, j, _ =>
    grammar.rules.cell (.unary state child.state) i j 0 * scores.outside.score i
      * child.inside.score j
  | binary state scores left right, i, j, k =>
    grammar.rules.cell (.binary state left.state right.state) i j k * scores.outside.score i
      * left.inside.score j * right.inside.score k

namespace RuleCounts

/-- The counts have a block for every rule of the grammar, and for no other. -/
structure Covers (counts : RuleCounts α) (grammar : Grammar α) (substates : List Nat) : Prop where
  fits : counts.rules.Fits substates
  same : ∀ key, (counts.rules.find? key).isSome = (grammar.rules.find? key).isSome

variable {counts : RuleCounts α} {grammar : Grammar α} {key other : Production}
  {parents lefts rights i j k : Nat}

theorem Covers.insert (covers : counts.Covers grammar substates) {block : RuleBlock α}
    (known : (grammar.rules.find? key).isSome) (fits : block.Fits key substates) :
    { counts with rules := counts.rules.insert key block }.Covers grammar substates := by
  constructor
  · exact covers.fits.insert fits
  · intro other
    rw [RuleTable.find?_insert]
    by_cases same : other = key
    · simp [same, known]
    · rw [if_neg same]
      exact covers.same other

theorem Covers.block_of (covers : counts.Covers grammar substates) {rule : RuleBlock α}
    (found : grammar.rules.find? key = some rule) :
    ∃ block, counts.rules.find? key = some block := by
  apply Option.isSome_iff_exists.mp
  rw [covers.same key, found]
  rfl

variable [ExactScalar α]

theorem insert_grows (amount : Nat → Nat → Nat → α) (covers : counts.Covers grammar substates)
    {old : RuleBlock α} (found : counts.rules.find? key = some old)
    (dimensions : key.dimensions substates = .ok (parents, lefts, rights))
    {result : Except Fault (RuleBlock α)}
    (sized : Delivers allowed (·.Sized parents lefts rights) result)
    (grows : ∀ i j k, i < parents → j < lefts → k < rights → Delivers allowed
      (Grows (·.Sized parents lefts rights) (·.cell i j k) old (amount i j k)) result) :
    Delivers allowed
      (Grows (·.Covers grammar substates) (fun counts place => counts.rules.at place) counts
        fun place : Place substates => if some key = some place.key then
          amount place.parent place.left place.right else 0)
      (do return { counts with rules := counts.rules.insert key (← result) }) := by
  have known : (grammar.rules.find? key).isSome := by
    rw [← covers.same key, found]
    rfl
  cases result with
  | error fault => exact sized
  | ok block =>
    constructor
    · exact covers.insert known (RuleBlock.Sized.fits sized dimensions)
    · funext ⟨other, i, j, k, inside⟩
      obtain ⟨_, _, _, otherDimensions, parent, left, right⟩ := inside
      simp only [RuleTable.at, Pi.add_apply, RuleTable.cell_insert]
      by_cases same : key = other
      · subst same
        cases dimensions.symm.trans otherDimensions
        have grown := grows i j k parent left right
        rw [if_pos rfl, if_pos rfl, grown.grown]
        simp [RuleTable.cell, found]
      · rw [if_neg (Ne.symm same), if_neg (by simpa using same), add_zero]

theorem use_of_absent {tree : LatentTree α} (expands : tree.rule? = some key)
    (missing : grammar.rules.find? key = none) (i j k : Nat) : tree.use grammar i j k = 0 := by
  cases tree with
  | preterminal => rfl
  | unary =>
    obtain rfl := Option.some.inj expands
    simp [LatentTree.use, RuleTable.cell_of_absent missing]
  | binary =>
    obtain rfl := Option.some.inj expands
    simp [LatentTree.use, RuleTable.cell_of_absent missing]

/-- What is added for a unary rule is its use as a share of the mass, whatever the scales. -/
theorem unary_use_div {state : Nat} {scores : NodeScores α} {child : LatentTree α}
    {rule : RuleBlock α} (found : grammar.rule? (.unary state child.state) = some rule) (mass : α)
    (scale : Int) :
    entry scores.outside.values i
        * (Scalar.scaleFactor (scores.outside.scale + child.inside.scale - scale) / mass)
        * rule.cell i j 0 * entry child.inside.values j =
      (LatentTree.unary state scores child).use grammar i j 0
        / (mass * Scalar.scaleFactor scale) := by
  rw [LatentTree.use, RuleTable.cell_of_find? found, ExactScalar.scaleFactor_sub, ExactScalar.scaleFactor_add,
    ScaledVector.score_eq_entry, ScaledVector.score_eq_entry]
  ring

theorem binary_use_div {state : Nat} {scores : NodeScores α} {left right : LatentTree α}
    {rule : RuleBlock α}
    (found : grammar.rule? (.binary state left.state right.state) = some rule) (mass : α)
    (scale : Int) :
    entry scores.outside.values i
        * (Scalar.scaleFactor
          (scores.outside.scale + left.inside.scale + right.inside.scale - scale) / mass)
        * entry left.inside.values j * rule.cell i j k * entry right.inside.values k =
      (LatentTree.binary state scores left right).use grammar i j k
        / (mass * Scalar.scaleFactor scale) := by
  rw [LatentTree.use, RuleTable.cell_of_find? found, ExactScalar.scaleFactor_sub, ExactScalar.scaleFactor_add,
    ExactScalar.scaleFactor_add, ScaledVector.score_eq_entry, ScaledVector.score_eq_entry,
    ScaledVector.score_eq_entry]
  ring

/-- The rule at the top of a tree grows by its use, as a share of the mass; a rule that the grammar
lacks is of no use. -/
theorem countScoredTop_grows (rules : grammar.rules.Fits substates)
    (covers : counts.Covers grammar substates) {tree : LatentTree α} (fits : tree.Fits substates)
    (mass : α) (scale : Int) :
    Delivers allowed
      (Grows (·.Covers grammar substates) (fun counts place => counts.rules.at place) counts
        fun place : Place substates => if tree.rule? = some place.key then
          tree.use grammar place.parent place.left place.right / (mass * Scalar.scaleFactor scale)
        else 0)
      (countScoredTop grammar mass scale counts tree) := by
  have unused {key : Production} (top : tree.rule? = some key) (found : grammar.rule? key = none) :
      (fun place : Place substates => if tree.rule? = some place.key then
        tree.use grammar place.parent place.left place.right / (mass * Scalar.scaleFactor scale)
      else 0) = 0 := by
    funext place
    rw [use_of_absent top found, zero_div]
    exact ite_self _
  cases tree with
  | preterminal => exact Grows.of_zero covers (funext fun _ => if_neg nofun)
  | unary state scores child =>
    simp only [countScoredTop, LatentTree.rule?]
    cases found : grammar.rule? (.unary state child.state) with
    | none => exact Grows.of_zero covers (unused rfl found)
    | some rule =>
      obtain ⟨top, below⟩ := LatentTree.fits_unary.mp fits
      have ruleSized := (rules.find? found).unary top.inside below.substates_eq
      have here := fits.dimensions_unary
      obtain ⟨old, known⟩ := covers.block_of found
      have oldSized := (covers.fits.find? known).sized here
      simp only [block, known, ok_bind]
      refine insert_grows (fun i j k => LatentTree.use grammar (.unary state scores child) i j k
        / (mass * Scalar.scaleFactor scale)) covers known here ?_ ?_
      · exact RuleBlock.countUnary_delivers oldSized ruleSized top.outside
      · intro i j k inParent inLeft inRight
        obtain rfl : k = 0 := Nat.lt_one_iff.mp inRight
        apply (RuleBlock.countUnary_grows oldSized ruleSized top.outside inParent inLeft).mono
        intro next grown
        exact ⟨grown.kept, grown.grown.trans (congrArg _ (unary_use_div found mass scale))⟩
  | binary state scores left right =>
    simp only [countScoredTop, LatentTree.rule?]
    cases found : grammar.rule? (.binary state left.state right.state) with
    | none => exact Grows.of_zero covers (unused rfl found)
    | some rule =>
      obtain ⟨top, leftBelow, rightBelow⟩ := LatentTree.fits_binary.mp fits
      have ruleSized :=
        (rules.find? found).binary top.inside leftBelow.substates_eq rightBelow.substates_eq
      have here := fits.dimensions_binary
      obtain ⟨old, known⟩ := covers.block_of found
      have oldSized := (covers.fits.find? known).sized here
      simp only [block, known, ok_bind]
      refine insert_grows (fun i j k => LatentTree.use grammar (.binary state scores left right)
        i j k / (mass * Scalar.scaleFactor scale)) covers known here ?_ ?_
      · exact RuleBlock.countBinary_delivers oldSized ruleSized top.outside
      · intro i j k inParent inLeft inRight
        apply (RuleBlock.countBinary_grows oldSized ruleSized top.outside inParent inLeft
          inRight).mono
        intro next grown
        exact ⟨grown.kept, grown.grown.trans (congrArg _ (binary_use_div found mass scale))⟩

theorem countScored_grows (rules : grammar.rules.Fits substates)
    (covers : counts.Covers grammar substates) {tree : LatentTree α} (fits : tree.Fits substates)
    {mass : α} (massed : tree.mass = .ok mass) (positive : 0 < mass) :
    Delivers allowed
      (Grows (·.Covers grammar substates) (fun counts place => counts.rules.at place) counts
        fun place : Place substates => (tree.subtrees.map fun node =>
          if node.rule? = some place.key then
            node.use grammar place.parent place.left place.right
              / (mass * Scalar.scaleFactor tree.inside.scale) else 0).sum)
      (counts.countScored grammar tree) := by
  simp only [countScored, massed, ok_bind]
  rw [if_neg (not_le.mpr positive), ← sum_map_apply]
  apply Delivers.foldlM_grows
  · exact covers
  · intro counts node member covers
    exact countScoredTop_grows rules covers (fits.of_mem member) _ _

omit [ExactScalar α] in
theorem find?_mapScoresM {f : Production → RuleBlock α → Except Fault (RuleBlock α)}
    {table new : RuleTable α} (success : table.mapScoresM f = .ok new) (key : Production) :
    match table.find? key with
    | none => new.find? key = none
    | some old => ∃ block, f key old = .ok block ∧ new.find? key = some block := by
  obtain ⟨entries⟩ := table
  obtain ⟨replaced, mapped, done⟩ := bind_eq_ok_iff.mp success
  obtain rfl := Except.ok.inj done
  simp only [RuleTable.find?] at mapped ⊢
  clear success
  induction entries generalizing replaced with
  | nil =>
    obtain rfl := Except.ok.inj mapped
    rfl
  | cons entry rest ih =>
    obtain ⟨other, old⟩ := entry
    rw [List.mapM_cons] at mapped
    obtain ⟨first, here, mapped⟩ := bind_eq_ok_iff.mp mapped
    obtain ⟨later, below, done⟩ := bind_eq_ok_iff.mp mapped
    obtain rfl := Except.ok.inj done
    obtain ⟨block, computed, done⟩ := bind_eq_ok_iff.mp here
    obtain rfl := Except.ok.inj done
    by_cases same : key = other
    · subst same
      rw [List.lookup_cons_self, List.lookup_cons_self]
      exact ⟨block, computed, rfl⟩
    · have different : (key == other) = false := beq_false_of_ne same
      simp only [List.lookup_cons, different]
      exact ih later below rfl

theorem after_covers (rules : grammar.rules.Fits grammar.substates) {start : RuleCounts α}
    (success : after grammar = .ok start) :
    start.Covers grammar grammar.substates ∧ ∀ key i j k, start.rules.cell key i j k = 0 := by
  have fits := (after_delivers rules any_overflow).of_ok success
  obtain ⟨table, mapped, done⟩ := bind_eq_ok_iff.mp success
  obtain rfl := Except.ok.inj done
  have found := find?_mapScoresM mapped
  refine ⟨⟨fits.fits, fun key => ?_⟩, fun key i j k => ?_⟩
  · have here := found key
    cases known : grammar.rules.find? key with
    | none =>
      rw [known] at here
      simp [here]
    | some old =>
      rw [known] at here
      obtain ⟨block, -, present⟩ := here
      simp [present]
  · have here := found key
    unfold RuleTable.cell
    cases known : grammar.rules.find? key with
    | none =>
      rw [known] at here
      simp [here]
    | some old =>
      rw [known] at here
      obtain ⟨block, zeros, present⟩ := here
      obtain ⟨count, -, done⟩ := bind_eq_ok_iff.mp zeros
      obtain rfl := Except.ok.inj done
      simp only [present, RuleBlock.cell, Array.getElem?_replicate]
      split <;> rfl

end RuleCounts

end LatentGrammar
