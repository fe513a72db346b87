import LatentGrammar.Proofs.Delivery
import LatentGrammar.Scoring

/-! Sizes of the tables that scores are kept in. A rule block fits numbers of substates if it has a
cell for every combination of them, and a tree fits if every node has a score for each substate of
its category. Tables that fit are never read beyond their ends, in whatever arithmetic. -/

namespace LatentGrammar

variable {α : Type}

namespace RuleBlock

/-- The block has exactly the cells of the given numbers of substates. -/
structure Sized (block : RuleBlock α) (parents lefts rights : Nat) : Prop where
  parents_eq : block.parents = parents
  lefts_eq : block.lefts = lefts
  rights_eq : block.rights = rights
  size_eq : block.cells.size = parents * lefts * rights

/-- The block has one cell for every combination of substates of the rule's categories. -/
def Fits (block : RuleBlock α) (key : Production) (substates : List Nat) : Prop :=
  ∃ parents lefts rights, key.dimensions substates = .ok (parents, lefts, rights) ∧
    block.Sized parents lefts rights

/-- The content of a cell, or zero beyond the end. -/
def cell [Zero α] (block : RuleBlock α) (i j k : Nat) : α :=
  (block.cells[block.offset i j k]?).getD 0

end RuleBlock

theorem Production.dimensions_unary_iff {substates : List Nat}
    {parent child parents lefts rights : Nat} :
    (unary parent child).dimensions substates = .ok (parents, lefts, rights) ↔
      substates[parent]? = some parents ∧ substates[child]? = some lefts ∧ rights = 1 := by
  simp only [dimensions, bind_eq_ok_iff, fetch_eq_ok_iff, pure, Except.pure, Except.ok.injEq,
    Prod.mk.injEq]
  constructor
  · rintro ⟨_, foundParent, _, foundChild, rfl, rfl, single⟩
    exact ⟨foundParent, foundChild, single.symm⟩
  · rintro ⟨foundParent, foundChild, single⟩
    exact ⟨_, foundParent, _, foundChild, rfl, rfl, single.symm⟩

theorem Production.dimensions_binary_iff {substates : List Nat}
    {parent left right parents lefts rights : Nat} :
    (binary parent left right).dimensions substates = .ok (parents, lefts, rights) ↔
      substates[parent]? = some parents ∧ substates[left]? = some lefts ∧
        substates[right]? = some rights := by
  simp only [dimensions, bind_eq_ok_iff, fetch_eq_ok_iff, pure, Except.pure, Except.ok.injEq,
    Prod.mk.injEq]
  constructor
  · rintro ⟨_, foundParent, _, foundLeft, _, foundRight, rfl, rfl, rfl⟩
    exact ⟨foundParent, foundLeft, foundRight⟩
  · rintro ⟨foundParent, foundLeft, foundRight⟩
    exact ⟨_, foundParent, _, foundLeft, _, foundRight, rfl, rfl, rfl⟩

namespace RuleBlock

theorem Fits.unary {block : RuleBlock α} {substates : List Nat} {parent child parents lefts : Nat}
    (fits : block.Fits (.unary parent child) substates)
    (foundParent : substates[parent]? = some parents)
    (foundChild : substates[child]? = some lefts) : block.Sized parents lefts 1 := by
  obtain ⟨_, _, _, dimensions, sized⟩ := fits
  obtain ⟨parentAgain, childAgain, rfl⟩ := Production.dimensions_unary_iff.mp dimensions
  cases foundParent.symm.trans parentAgain
  cases foundChild.symm.trans childAgain
  exact sized

theorem Fits.binary {block : RuleBlock α} {substates : List Nat}
    {parent left right parents lefts rights : Nat}
    (fits : block.Fits (.binary parent left right) substates)
    (foundParent : substates[parent]? = some parents) (foundLeft : substates[left]? = some lefts)
    (foundRight : substates[right]? = some rights) : block.Sized parents lefts rights := by
  obtain ⟨_, _, _, dimensions, sized⟩ := fits
  obtain ⟨parentAgain, leftAgain, rightAgain⟩ := Production.dimensions_binary_iff.mp dimensions
  cases foundParent.symm.trans parentAgain
  cases foundLeft.symm.trans leftAgain
  cases foundRight.symm.trans rightAgain
  exact sized

theorem mul_add_lt_mul {row rows column columns : Nat} (below : row < rows)
    (inside : column < columns) : row * columns + column < rows * columns := by
  calc row * columns + column < row * columns + columns := by omega
    _ = (row + 1) * columns := by rw [Nat.succ_mul]
    _ ≤ rows * columns := Nat.mul_le_mul_right columns below

namespace Sized

variable {block : RuleBlock α} {parents lefts rights i j k : Nat}

theorem offset_lt (sized : block.Sized parents lefts rights) (parent : i < parents)
    (left : j < lefts) (right : k < rights) : block.offset i j k < block.cells.size := by
  rw [sized.size_eq, offset, sized.lefts_eq, sized.rights_eq]
  exact mul_add_lt_mul (mul_add_lt_mul parent left) right

theorem get_eq [Zero α] (sized : block.Sized parents lefts rights) (parent : i < parents)
    (left : j < lefts) (right : k < rights) : block.get i j k = .ok (block.cell i j k) := by
  have inside := sized.offset_lt parent left right
  have some : (block.rights == 0) = false := by
    simp only [sized.rights_eq, beq_eq_false_iff_ne]
    omega
  simp [get, cell, some, inside]

end Sized

end RuleBlock

/-- Every block of the table fits its rule. -/
def RuleTable.Fits (table : RuleTable α) (substates : List Nat) : Prop :=
  ∀ entry ∈ table.entries, entry.2.Fits entry.1 substates

/-- The score of one combination of substates, which is zero for rules that are not in the table. -/
def RuleTable.cell [Zero α] (table : RuleTable α) (key : Production) (i j k : Nat) : α :=
  match table.find? key with
  | none => 0
  | some block => block.cell i j k

theorem RuleTable.cell_of_absent [Zero α] {table : RuleTable α} {key : Production}
    (absent : table.find? key = none) : table.cell key = fun _ _ _ => 0 := by
  funext i j k
  simp only [cell, absent]

theorem RuleTable.cell_of_find? [Zero α] {table : RuleTable α} {key : Production}
    {block : RuleBlock α} (found : table.find? key = some block) : table.cell key = block.cell := by
  funext i j k
  simp only [cell, found]

theorem RuleTable.Fits.find? {table : RuleTable α} {substates : List Nat}
    (fits : table.Fits substates) {key : Production} {block : RuleBlock α}
    (found : table.find? key = some block) : block.Fits key substates := by
  obtain ⟨before, after, split, -⟩ := List.lookup_eq_some_iff.mp found
  exact fits (key, block) (by simp [split])

/-- The vectors of a node have a score for each substate of its category. -/
structure NodeScores.Fits (scores : NodeScores α) (substates : List Nat) (state : Nat) : Prop where
  inside : substates[state]? = some scores.inside.values.length
  outside : scores.outside.values.length = scores.inside.values.length
  room : scores.inside.values.length < Word.tableLimit

namespace LatentTree

/-- Every node of the tree has vectors for the substates of its category. -/
def Fits (tree : LatentTree α) (substates : List Nat) : Prop :=
  ∀ node ∈ tree.subtrees, node.scores.Fits substates node.state

variable {substates : List Nat} {state : Nat} {word : String} {scores : NodeScores α}
  {child left right : LatentTree α}

@[simp] theorem fits_preterminal :
    (preterminal state word scores).Fits substates ↔ scores.Fits substates state := by
  simp [Fits, subtrees, LatentTree.scores, LatentTree.state]

@[simp] theorem fits_unary :
    (unary state scores child).Fits substates ↔
      scores.Fits substates state ∧ child.Fits substates := by
  simp [Fits, subtrees, LatentTree.scores, LatentTree.state]

@[simp] theorem fits_binary :
    (binary state scores left right).Fits substates ↔
      scores.Fits substates state ∧ left.Fits substates ∧ right.Fits substates := by
  simp [Fits, subtrees, LatentTree.scores, LatentTree.state, or_imp, forall_and]

def isPreterminal : LatentTree α → Bool
  | preterminal .. => true
  | _ => false

theorem preterminals_eq_filter (tree : LatentTree α) :
    tree.preterminals = tree.subtrees.filter isPreterminal := by
  induction tree with
  | preterminal => rfl
  | unary _ _ _ ih => simpa [preterminals, subtrees, isPreterminal] using ih
  | binary _ _ _ _ left right => simp [preterminals, subtrees, isPreterminal, left, right]

theorem mem_subtrees_self (tree : LatentTree α) : tree ∈ tree.subtrees := by
  cases tree <;> simp [subtrees]

theorem Fits.top {tree : LatentTree α} (fits : tree.Fits substates) :
    tree.scores.Fits substates tree.state :=
  fits tree tree.mem_subtrees_self

theorem Fits.substates_eq {tree : LatentTree α} (fits : tree.Fits substates) :
    substates[tree.state]? = some tree.substates :=
  fits.top.inside

theorem Fits.dimensions_unary (fits : (unary state scores child).Fits substates) :
    (Production.unary state child.state).dimensions substates =
      .ok (scores.inside.values.length, child.substates, 1) := by
  rw [fits_unary] at fits
  exact Production.dimensions_unary_iff.mpr ⟨fits.1.inside, fits.2.substates_eq, rfl⟩

theorem Fits.dimensions_binary (fits : (binary state scores left right).Fits substates) :
    (Production.binary state left.state right.state).dimensions substates =
      .ok (scores.inside.values.length, left.substates, right.substates) := by
  rw [fits_binary] at fits
  exact Production.dimensions_binary_iff.mpr
    ⟨fits.1.inside, fits.2.1.substates_eq, fits.2.2.substates_eq⟩

variable [Scalar α] {allowed : Fault → Prop}

theorem delivers_zeros {count : Nat} (found : substates[state]? = some count)
    (overflow : allowed .overflow) :
    Delivers allowed (fun scores : NodeScores α => scores.Fits substates state)
      (NodeScores.zeros count) := by
  unfold NodeScores.zeros ScaledVector.zeros fill
  by_cases room : count < Word.tableLimit
  · rw [if_pos room]
    exact ⟨by simpa using found, rfl, by simpa using room⟩
  · rw [if_neg room]
    exact overflow

theorem fits_of_zeros {count : Nat} (found : substates[state]? = some count)
    (success : NodeScores.zeros count = .ok scores) : scores.Fits substates state :=
  (delivers_zeros found any_overflow).of_ok success

theorem countOf_eq_ok_iff {label : String} {count : Nat} :
    countOf substates state label = .ok count ↔ substates[state]? = some count := by
  unfold countOf
  cases substates[state]? <;> simp

theorem ofTree_fits {vocabulary : Vocabulary} {source : Tree} {tree : LatentTree α}
    (built : ofTree substates vocabulary source = .ok tree) : tree.Fits substates := by
  induction source using ofTree.induct generalizing tree with
  | case1 label children ih =>
    rw [ofTree] at built
    obtain ⟨state, -, built⟩ := bind_eq_ok_iff.mp built
    obtain ⟨count, counted, built⟩ := bind_eq_ok_iff.mp built
    have found := countOf_eq_ok_iff.mp counted
    -- Without children, over one word or one constituent, over two nodes or more.
    rcases children with _ | ⟨⟨first, _ | ⟨inner, more⟩⟩, _ | ⟨second, _ | ⟨third, rest⟩⟩⟩
    · cases built
    · obtain ⟨scores, fresh, done⟩ := bind_eq_ok_iff.mp built
      obtain rfl := Except.ok.inj done
      exact fits_preterminal.mpr (fits_of_zeros found fresh)
    · cases built
    · cases built
    · obtain ⟨scores, fresh, built⟩ := bind_eq_ok_iff.mp built
      obtain ⟨child, below, done⟩ := bind_eq_ok_iff.mp built
      obtain rfl := Except.ok.inj done
      exact fits_unary.mpr ⟨fits_of_zeros found fresh, ih below⟩
    · change (if _ then _ else _) = _ at built
      split at built
      · cases built
      · obtain ⟨scores, fresh, built⟩ := bind_eq_ok_iff.mp built
        obtain ⟨left, leftBelow, built⟩ := bind_eq_ok_iff.mp built
        obtain ⟨right, rightBelow, done⟩ := bind_eq_ok_iff.mp built
        obtain rfl := Except.ok.inj done
        exact fits_binary.mpr ⟨fits_of_zeros found fresh, ih.1 leftBelow, ih.2 rightBelow⟩
    · cases built

theorem resize_delivers {other : List Nat} {tree : LatentTree α} (fits : tree.Fits other)
    (categories : other.length = substates.length) (overflow : allowed .overflow) :
    Delivers allowed (·.Fits substates) (tree.resize substates) := by
  have fresh {state size : Nat} (known : other[state]? = some size) :
      Delivers allowed (fun scores : NodeScores α => scores.Fits substates state)
        (fetch substates state >>= NodeScores.zeros) := by
    have below : state < substates.length := by
      rw [← categories]
      exact (List.getElem?_eq_some_iff.mp known).1
    have found : substates[state]? = some substates[state] := by simp [below]
    rw [fetch_eq_ok_iff.mpr found]
    exact delivers_zeros found overflow
  induction tree with
  | preterminal state word scores =>
    rw [fits_preterminal] at fits
    rw [resize, ← bind_assoc]
    exact (fresh fits.inside).bind fun scores fits => fits_preterminal.mpr fits
  | unary state scores child ih =>
    rw [fits_unary] at fits
    rw [resize, ← bind_assoc]
    apply (fresh fits.1.inside).bind
    intro scores top
    exact (ih fits.2).bind fun child below => fits_unary.mpr ⟨top, below⟩
  | binary state scores left right leftIh rightIh =>
    rw [fits_binary] at fits
    rw [resize, ← bind_assoc]
    apply (fresh fits.1.inside).bind
    intro scores top
    apply (leftIh fits.2.1).bind
    intro left leftBelow
    exact (rightIh fits.2.2).bind fun right rightBelow =>
      fits_binary.mpr ⟨top, leftBelow, rightBelow⟩

end LatentTree

end LatentGrammar
