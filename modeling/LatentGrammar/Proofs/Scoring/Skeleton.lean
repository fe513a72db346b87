import LatentGrammar.Proofs.Scoring.Derivation

namespace LatentGrammar

/-- Scores of no substates. -/
def NodeScores.blank : NodeScores Unit := ⟨⟨[], 0⟩, ⟨[], 0⟩⟩

namespace LatentTree

variable {α β : Type}

/-- The categories and words of a tree. -/
def skeleton : LatentTree α → LatentTree Unit
  | preterminal state word _ => .preterminal state word .blank
  | unary state _ child => .unary state .blank child.skeleton
  | binary state _ left right => .binary state .blank left.skeleton right.skeleton

@[simp] theorem state_skeleton (tree : LatentTree α) : tree.skeleton.state = tree.state := by
  cases tree <;> rfl

@[simp] theorem isPreterminal_skeleton (tree : LatentTree α) :
    tree.skeleton.isPreterminal = tree.isPreterminal := by
  cases tree <;> rfl

@[simp] theorem wordCount_skeleton (tree : LatentTree α) :
    tree.skeleton.wordCount = tree.wordCount := by
  induction tree with
  | preterminal => rfl
  | unary _ _ _ ih => simpa [skeleton, wordCount] using ih
  | binary _ _ _ _ left right => simp [skeleton, wordCount, left, right]

theorem subtrees_skeleton (tree : LatentTree α) :
    tree.skeleton.subtrees = tree.subtrees.map skeleton := by
  induction tree with
  | preterminal => rfl
  | unary _ _ _ ih => simp [skeleton, subtrees, ih]
  | binary _ _ _ _ left right => simp [skeleton, subtrees, left, right]

theorem wordsBefore_skeleton (tree : LatentTree α) (index : Nat) :
    tree.skeleton.wordsBefore index = tree.wordsBefore index := by
  have same : isPreterminal ∘ (skeleton : LatentTree α → LatentTree Unit) = isPreterminal := by
    funext node
    exact isPreterminal_skeleton node
  rw [wordsBefore, wordsBefore, subtrees_skeleton, ← List.map_take, List.countP_map, same]

variable {first : LatentTree α} {second : LatentTree β} {state : Nat} {word : String}
  {scores : NodeScores β} {child left right : LatentTree β}

theorem state_eq_of_skeleton (same : first.skeleton = second.skeleton) :
    first.state = second.state := by
  simpa using congrArg state same

theorem wordCount_eq_of_skeleton (same : first.skeleton = second.skeleton) :
    first.wordCount = second.wordCount := by
  simpa using congrArg wordCount same

theorem length_subtrees_of_skeleton (same : first.skeleton = second.skeleton) :
    first.subtrees.length = second.subtrees.length := by
  simpa [subtrees_skeleton] using congrArg (·.subtrees.length) same

/-- Trees of one skeleton have the same nodes, with the same words before them. -/
theorem subtree_of_skeleton (same : first.skeleton = second.skeleton) {index : Nat}
    {node : LatentTree β} (found : second.subtrees[index]? = some node) :
    ∃ other, first.subtrees[index]? = some other ∧ other.skeleton = node.skeleton ∧
      first.wordsBefore index = second.wordsBefore index := by
  have nodes : first.subtrees.map skeleton = second.subtrees.map skeleton := by
    rw [← subtrees_skeleton, ← subtrees_skeleton, same]
  have here := congrArg (·[index]?) nodes
  simp only [List.getElem?_map, found, Option.map_some, Option.map_eq_some_iff] at here
  obtain ⟨other, there, alike⟩ := here
  refine ⟨other, there, alike, ?_⟩
  rw [← wordsBefore_skeleton first, same, wordsBefore_skeleton]

theorem skeleton_eq_preterminal
    (same : first.skeleton = (preterminal state word scores).skeleton) :
    ∃ other, first = preterminal state word other := by
  cases first with
  | preterminal _ _ other =>
    simp only [skeleton, preterminal.injEq, and_true] at same
    obtain ⟨rfl, rfl⟩ := same
    exact ⟨other, rfl⟩
  | _ => simp [skeleton] at same

theorem skeleton_eq_unary (same : first.skeleton = (unary state scores child).skeleton) :
    ∃ other inner, first = unary state other inner ∧ inner.skeleton = child.skeleton := by
  cases first with
  | unary _ other inner =>
    simp only [skeleton, unary.injEq, true_and] at same
    obtain ⟨rfl, below⟩ := same
    exact ⟨other, inner, rfl, below⟩
  | _ => simp [skeleton] at same

theorem skeleton_eq_binary (same : first.skeleton = (binary state scores left right).skeleton) :
    ∃ other innerLeft innerRight, first = binary state other innerLeft innerRight ∧
      innerLeft.skeleton = left.skeleton ∧ innerRight.skeleton = right.skeleton := by
  cases first with
  | binary _ other innerLeft innerRight =>
    simp only [skeleton, binary.injEq, true_and] at same
    obtain ⟨rfl, leftBelow, rightBelow⟩ := same
    exact ⟨other, innerLeft, innerRight, rfl, leftBelow, rightBelow⟩
  | _ => simp [skeleton] at same

variable [Scalar α] {tree other : LatentTree α} {substates : List Nat}

@[simp] theorem skeleton_cleared (tree : LatentTree α) :
    tree.cleared.skeleton = tree.skeleton := by
  induction tree with
  | preterminal => rfl
  | unary _ _ _ ih => simp [cleared, skeleton, ih]
  | binary _ _ _ _ left right => simp [cleared, skeleton, left, right]

theorem Alike.skeleton_eq (alike : tree.Alike other) : tree.skeleton = other.skeleton := by
  simpa using congrArg skeleton alike

theorem NodeScores.Fits.cleared_eq {one two : NodeScores α} (fits : one.Fits substates state)
    (others : two.Fits substates state) : one.cleared = two.cleared := by
  have inside : one.inside.values.length = two.inside.values.length :=
    Option.some.inj (fits.inside.symm.trans others.inside)
  simp only [NodeScores.cleared, fits.outside, others.outside, inside]

theorem alike_of_skeleton (same : tree.skeleton = other.skeleton) (fits : tree.Fits substates)
    (others : other.Fits substates) : tree.Alike other := by
  induction other generalizing tree with
  | preterminal state word scores =>
    obtain ⟨_, rfl⟩ := skeleton_eq_preterminal same
    rw [fits_preterminal] at fits others
    exact alike_preterminal (NodeScores.Fits.cleared_eq fits others)
  | unary state scores child ih =>
    obtain ⟨_, inner, rfl, below⟩ := skeleton_eq_unary same
    rw [fits_unary] at fits others
    exact alike_unary (NodeScores.Fits.cleared_eq fits.1 others.1) (ih below fits.2 others.2)
  | binary state scores left right leftIh rightIh =>
    obtain ⟨_, innerLeft, innerRight, rfl, leftBelow, rightBelow⟩ := skeleton_eq_binary same
    rw [fits_binary] at fits others
    exact alike_binary (NodeScores.Fits.cleared_eq fits.1 others.1)
      (leftIh leftBelow fits.2.1 others.2.1) (rightIh rightBelow fits.2.2 others.2.2)

theorem resize_skeleton (success : tree.resize substates = .ok other) :
    other.skeleton = tree.skeleton := by
  induction tree generalizing other with
  | preterminal state word scores =>
    obtain ⟨size, -, success⟩ := bind_eq_ok_iff.mp success
    obtain ⟨fresh, -, done⟩ := bind_eq_ok_iff.mp success
    obtain rfl := Except.ok.inj done
    rfl
  | unary state scores child ih =>
    obtain ⟨size, -, success⟩ := bind_eq_ok_iff.mp success
    obtain ⟨fresh, -, success⟩ := bind_eq_ok_iff.mp success
    obtain ⟨inner, below, done⟩ := bind_eq_ok_iff.mp success
    obtain rfl := Except.ok.inj done
    simp only [skeleton, ih below]
  | binary state scores left right leftIh rightIh =>
    obtain ⟨size, -, success⟩ := bind_eq_ok_iff.mp success
    obtain ⟨fresh, -, success⟩ := bind_eq_ok_iff.mp success
    obtain ⟨innerLeft, leftBelow, success⟩ := bind_eq_ok_iff.mp success
    obtain ⟨innerRight, rightBelow, done⟩ := bind_eq_ok_iff.mp success
    obtain rfl := Except.ok.inj done
    simp only [skeleton, leftIh leftBelow, rightIh rightBelow]

theorem fillInside_skeleton {model : Model α} {position : Nat}
    (success : tree.fillInside model position = .ok other) : other.skeleton = tree.skeleton := by
  induction tree generalizing other position with
  | preterminal state word scores =>
    obtain ⟨values, -, done⟩ := bind_eq_ok_iff.mp success
    obtain rfl := Except.ok.inj done
    rfl
  | unary state scores child ih =>
    obtain ⟨inner, below, success⟩ := bind_eq_ok_iff.mp success
    obtain ⟨values, -, done⟩ := bind_eq_ok_iff.mp success
    obtain rfl := Except.ok.inj done
    simp only [skeleton, ih below]
  | binary state scores left right leftIh rightIh =>
    obtain ⟨innerRight, rightBelow, success⟩ := bind_eq_ok_iff.mp success
    obtain ⟨innerLeft, leftBelow, success⟩ := bind_eq_ok_iff.mp success
    obtain ⟨values, -, done⟩ := bind_eq_ok_iff.mp success
    obtain rfl := Except.ok.inj done
    simp only [skeleton, leftIh leftBelow, rightIh rightBelow]

theorem computeInside_skeleton {model : Model α} (success : tree.computeInside model = .ok other) :
    other.skeleton = tree.skeleton := by
  obtain ⟨-, -, filled⟩ := bind_eq_ok_iff.mp success
  exact fillInside_skeleton filled

theorem exists_zeros (fits : ∃ scores : NodeScores α, scores.Fits substates state) {count : Nat}
    (found : substates[state]? = some count) :
    ∃ fresh : NodeScores α, NodeScores.zeros count = .ok fresh := by
  obtain ⟨scores, fits⟩ := fits
  have room : count < Word.tableLimit := by
    rw [← Option.some.inj (fits.inside.symm.trans found)]
    exact fits.room
  exact ⟨_, by simp [NodeScores.zeros, ScaledVector.zeros, fill_eq_ok_iff.mpr ⟨room, rfl⟩]; rfl⟩

/-- A tree that was built for some numbers of substates can be built for others, if a tree of its
skeleton fits those. -/
theorem ofTree_of_skeleton {vocabulary : Vocabulary} {source : Tree} {old : List Nat}
    (built : ofTree old vocabulary source = .ok tree) (same : other.skeleton = tree.skeleton)
    (fits : other.Fits substates) :
    ∃ result : LatentTree α, ofTree substates vocabulary source = .ok result ∧
      result.skeleton = other.skeleton := by
  induction source using ofTree.induct generalizing tree other with
  | case1 label children ih =>
    rw [ofTree] at built ⊢
    obtain ⟨state, known, built⟩ := bind_eq_ok_iff.mp built
    obtain ⟨count, -, built⟩ := bind_eq_ok_iff.mp built
    rw [known, ok_bind]
    have fresh {scores : NodeScores α} (fits : scores.Fits substates state) :
        ∃ size zeros, countOf substates state label = .ok size ∧
          (NodeScores.zeros size : Except Fault (NodeScores α)) = .ok zeros := by
      obtain ⟨zeros, made⟩ := exists_zeros ⟨scores, fits⟩ fits.inside
      exact ⟨_, zeros, countOf_eq_ok_iff.mpr fits.inside, made⟩
    -- The cases in which a tree is built: over one word, over one constituent, over two.
    rcases children with _ | ⟨⟨first, _ | ⟨inner, more⟩⟩, _ | ⟨second, _ | ⟨third, rest⟩⟩⟩
    · cases built
    · obtain ⟨scores, -, done⟩ := bind_eq_ok_iff.mp built
      obtain rfl := Except.ok.inj done
      obtain ⟨_, rfl⟩ := skeleton_eq_preterminal same
      obtain ⟨size, zeros, counted, made⟩ := fresh (fits_preterminal.mp fits)
      rw [counted, ok_bind, made]
      exact ⟨_, rfl, rfl⟩
    · cases built
    · cases built
    · obtain ⟨scores, -, built⟩ := bind_eq_ok_iff.mp built
      obtain ⟨child, below, done⟩ := bind_eq_ok_iff.mp built
      obtain rfl := Except.ok.inj done
      obtain ⟨_, inner, rfl, alike⟩ := skeleton_eq_unary same
      obtain ⟨top, fits⟩ := fits_unary.mp fits
      obtain ⟨size, zeros, counted, made⟩ := fresh top
      obtain ⟨result, success, kept⟩ := ih below alike fits
      rw [counted, ok_bind]
      dsimp only
      rw [made, ok_bind, success]
      exact ⟨_, rfl, by simp only [skeleton, kept]⟩
    · change (if _ then _ else _) = _ at built
      split at built
      · cases built
      · rename_i inner
        obtain ⟨scores, -, built⟩ := bind_eq_ok_iff.mp built
        obtain ⟨left, leftBelow, built⟩ := bind_eq_ok_iff.mp built
        obtain ⟨right, rightBelow, done⟩ := bind_eq_ok_iff.mp built
        obtain rfl := Except.ok.inj done
        obtain ⟨_, innerLeft, innerRight, rfl, leftAlike, rightAlike⟩ := skeleton_eq_binary same
        obtain ⟨top, leftFits, rightFits⟩ := fits_binary.mp fits
        obtain ⟨size, zeros, counted, made⟩ := fresh top
        obtain ⟨newLeft, leftSuccess, leftKept⟩ := ih.1 leftBelow leftAlike leftFits
        obtain ⟨newRight, rightSuccess, rightKept⟩ := ih.2 rightBelow rightAlike rightFits
        rw [counted, ok_bind]
        dsimp only
        rw [if_neg inner, made, ok_bind, leftSuccess, ok_bind, rightSuccess]
        exact ⟨_, rfl, by simp only [skeleton, leftKept, rightKept]⟩
    · cases built

/-- The tree with its inside scores only. -/
def insideOnly : LatentTree α → LatentTree α
  | preterminal state word scores => .preterminal state word ⟨scores.inside, ⟨[], 0⟩⟩
  | unary state scores child => .unary state ⟨scores.inside, ⟨[], 0⟩⟩ child.insideOnly
  | binary state scores left right =>
    .binary state ⟨scores.inside, ⟨[], 0⟩⟩ left.insideOnly right.insideOnly

omit [Scalar α] in
theorem inside_eq_of_insideOnly (same : tree.insideOnly = other.insideOnly) :
    tree.inside = other.inside := by
  have kept (tree : LatentTree α) : tree.insideOnly.inside = tree.inside := by
    cases tree <;> rfl
  rw [← kept, same, kept]

omit [Scalar α] in
theorem skeleton_eq_of_insideOnly (same : tree.insideOnly = other.insideOnly) :
    tree.skeleton = other.skeleton := by
  have kept (tree : LatentTree α) : tree.insideOnly.skeleton = tree.skeleton := by
    induction tree with
    | preterminal => rfl
    | unary _ _ _ ih => simp [insideOnly, skeleton, ih]
    | binary _ _ _ _ left right => simp [insideOnly, skeleton, left, right]
  rw [← kept, same, kept]

/-- Two computations that both fail the same way, or come to trees with the same inside scores. -/
def SameInside (one two : Except Fault (LatentTree α)) : Prop :=
  one.map insideOnly = two.map insideOnly

omit [Scalar α] in
theorem SameInside.bind {one two : Except Fault (LatentTree α)} (same : SameInside one two)
    {next next' : LatentTree α → Except Fault (LatentTree α)}
    (rest : ∀ tree other, tree.insideOnly = other.insideOnly → SameInside (next tree) (next' other)) :
    SameInside (one >>= next) (two >>= next') := by
  cases one with
  | error fault =>
    cases two with
    | error fault' => exact same
    | ok other => cases same
  | ok tree =>
    cases two with
    | error fault' => cases same
    | ok other => exact rest tree other (Except.ok.inj same)

omit [Scalar α] in
theorem sameInside_of_values {one two : Except Fault (List α)} {put put' : List α → LatentTree α}
    (same : one = two) (rest : ∀ values, (put values).insideOnly = (put' values).insideOnly) :
    SameInside (one >>= fun values => return put values)
      (two >>= fun values => return put' values) := by
  subst same
  cases one with
  | error fault => rfl
  | ok values => exact congrArg Except.ok (rest values)

theorem fillInside_congr (alike : tree.Alike other) (model : Model α) (position : Nat) :
    SameInside (tree.fillInside model position) (other.fillInside model position) := by
  induction other generalizing tree position with
  | preterminal state word scores =>
    obtain ⟨_, rfl⟩ := skeleton_eq_preterminal alike.skeleton_eq
    exact sameInside_of_values rfl fun _ => rfl
  | unary state scores child ih =>
    obtain ⟨old, inner, rfl, below⟩ := alike.unary_cases
    have size : old.inside.values.length = scores.inside.values.length := alike.substates_eq
    apply (ih below position).bind
    intro result result' same
    have states := state_eq_of_skeleton (skeleton_eq_of_insideOnly same)
    have insides := inside_eq_of_insideOnly same
    refine sameInside_of_values ?_ fun values => ?_
    · rw [states, insides, size]
    · simp only [insideOnly, insides, same]
  | binary state scores left right leftIh rightIh =>
    obtain ⟨old, innerLeft, innerRight, rfl, leftBelow, rightBelow⟩ := alike.binary_cases
    have size : old.inside.values.length = scores.inside.values.length := alike.substates_eq
    have words : position + innerLeft.wordCount = position + left.wordCount := by
      rw [leftBelow.wordCount_eq]
    have rightSame := rightIh rightBelow (position + left.wordCount)
    rw [← words] at rightSame
    simp only [fillInside]
    rw [← words]
    apply rightSame.bind
    intro right right' sameRight
    apply (leftIh leftBelow position).bind
    intro left left' sameLeft
    have leftState := state_eq_of_skeleton (skeleton_eq_of_insideOnly sameLeft)
    have rightState := state_eq_of_skeleton (skeleton_eq_of_insideOnly sameRight)
    have leftInside := inside_eq_of_insideOnly sameLeft
    have rightInside := inside_eq_of_insideOnly sameRight
    refine sameInside_of_values ?_ fun values => ?_
    · rw [leftState, rightState, leftInside, rightInside, size]
    · simp only [insideOnly, leftInside, rightInside, sameLeft, sameRight]

theorem checkSubstates_cleared (tree : LatentTree α) (substates : List Nat) :
    tree.cleared.checkSubstates substates = tree.checkSubstates substates := by
  have nodes : tree.cleared.subtrees = tree.subtrees.map cleared := by
    induction tree with
    | preterminal => rfl
    | unary _ _ _ ih => simp [cleared, subtrees, ih]
    | binary _ _ _ _ left right => simp [cleared, subtrees, left, right]
  simp only [checkSubstates, nodes]
  induction tree.subtrees with
  | nil => rfl
  | cons node rest ih => simp only [List.map_cons, List.forM, state_cleared, substates_cleared, ih]

theorem computeInside_congr (alike : tree.Alike other) (model : Model α) :
    SameInside (tree.computeInside model) (other.computeInside model) := by
  have checked : tree.checkSubstates model.substates = other.checkSubstates model.substates := by
    rw [← checkSubstates_cleared, alike, checkSubstates_cleared]
  unfold computeInside
  rw [checked]
  cases other.checkSubstates model.substates with
  | error fault => rfl
  | ok _ => exact fillInside_congr alike model 0

end LatentTree

end LatentGrammar
