import LatentGrammar.Proofs.Counting.Evaluation
import LatentGrammar.Proofs.Schedule.Frames

namespace LatentGrammar

variable {α : Type}

theorem RuleBlock.Fits.sized_unary {block : RuleBlock α} {substates : List Nat}
    {parent child parents lefts : Nat} (fits : block.Fits (.unary parent child) substates)
    (parentSize : parents = (substates[parent]?).getD 0)
    (childSize : lefts = (substates[child]?).getD 0) : block.Sized parents lefts 1 := by
  obtain ⟨_, _, _, dimensions, sized⟩ := fits
  obtain ⟨foundParent, foundChild, rfl⟩ := Production.dimensions_unary_iff.mp dimensions
  rw [foundParent, Option.getD_some] at parentSize
  rw [foundChild, Option.getD_some] at childSize
  rwa [parentSize, childSize]

theorem RuleBlock.Fits.sized_binary {block : RuleBlock α} {substates : List Nat}
    {parent left right parents lefts rights : Nat}
    (fits : block.Fits (.binary parent left right) substates)
    (parentSize : parents = (substates[parent]?).getD 0)
    (leftSize : lefts = (substates[left]?).getD 0)
    (rightSize : rights = (substates[right]?).getD 0) : block.Sized parents lefts rights := by
  obtain ⟨_, _, _, dimensions, sized⟩ := fits
  obtain ⟨foundParent, foundLeft, foundRight⟩ := Production.dimensions_binary_iff.mp dimensions
  rw [foundParent, Option.getD_some] at parentSize
  rw [foundLeft, Option.getD_some] at leftSize
  rw [foundRight, Option.getD_some] at rightSize
  rwa [parentSize, leftSize, rightSize]

namespace LatentTree

section Sizes

variable {model : Model α} {tree : LatentTree α} {state : Nat} {scores : NodeScores α}

/-- The node has scores for another number of substates than the model. -/
def Disagrees (model : Model α) (node : LatentTree α) : Bool :=
  node.substates != (model.substates[node.state]?).getD 0

/-- No node of the tree disagrees with the model. -/
def Agrees (model : Model α) (tree : LatentTree α) : Prop :=
  ∀ node ∈ tree.subtrees, node.substates = (model.substates[node.state]?).getD 0

def mismatch (model : Model α) (node : LatentTree α) : Fault :=
  .substateMismatch node.state node.substates ((model.substates[node.state]?).getD 0)

theorem checkSubstates_eq_find? (model : Model α) (tree : LatentTree α) :
    tree.checkSubstates model.substates = match tree.subtrees.find? (Disagrees model) with
      | none => .ok ()
      | some node => .error (mismatch model node) := by
  unfold checkSubstates
  induction tree.subtrees with
  | nil => rfl
  | cons node rest ih =>
    rw [List.forM, List.find?_cons]
    by_cases agrees : node.substates = (model.substates[node.state]?).getD 0
    · simp only [Disagrees, agrees, beq_self_eq_true, if_true, bne_self_eq_false]
      exact ih
    · have disagrees : Disagrees model node = true := bne_iff_ne.mpr agrees
      simp only [disagrees, beq_eq_false_iff_ne.mpr agrees]
      rfl

theorem find?_disagrees_eq_none_iff :
    tree.subtrees.find? (Disagrees model) = none ↔ tree.Agrees model := by
  simp [List.find?_eq_none, Disagrees, Agrees]

@[simp] theorem agrees_preterminal {word : String} :
    (preterminal state word scores).Agrees model ↔
      scores.inside.values.length = (model.substates[state]?).getD 0 := by
  simp [Agrees, subtrees, LatentTree.state, substates, inside, LatentTree.scores]

@[simp] theorem agrees_unary {child : LatentTree α} :
    (unary state scores child).Agrees model ↔
      scores.inside.values.length = (model.substates[state]?).getD 0 ∧ child.Agrees model := by
  simp [Agrees, subtrees, LatentTree.state, substates, inside, LatentTree.scores]

@[simp] theorem agrees_binary {left right : LatentTree α} :
    (binary state scores left right).Agrees model ↔
      scores.inside.values.length = (model.substates[state]?).getD 0 ∧ left.Agrees model ∧
        right.Agrees model := by
  simp [Agrees, subtrees, LatentTree.state, substates, inside, LatentTree.scores, or_imp,
    forall_and]

theorem Agrees.top (agrees : tree.Agrees model) :
    tree.substates = (model.substates[tree.state]?).getD 0 :=
  agrees tree tree.mem_subtrees_self

end Sizes

/-- The tree with its outside scores only. -/
def outsideOnly : LatentTree α → LatentTree α
  | preterminal state word scores => .preterminal state word ⟨⟨[], 0⟩, scores.outside⟩
  | unary state scores child => .unary state ⟨⟨[], 0⟩, scores.outside⟩ child.outsideOnly
  | binary state scores left right =>
    .binary state ⟨⟨[], 0⟩, scores.outside⟩ left.outsideOnly right.outsideOnly

theorem outside_eq_of_outsideOnly {tree other : LatentTree α}
    (same : tree.outsideOnly = other.outsideOnly) : tree.outside = other.outside := by
  have kept (tree : LatentTree α) : tree.outsideOnly.outside = tree.outside := by
    cases tree <;> rfl
  rw [← kept, same, kept]

section Inside

variable {first : LatentTree α} {state : Nat} {word : String} {scores : NodeScores α}
  {child left right : LatentTree α}

theorem insideOnly_eq_preterminal
    (same : first.insideOnly = (preterminal state word scores).insideOnly) :
    ∃ outside, first = preterminal state word ⟨scores.inside, outside⟩ := by
  cases first with
  | preterminal _ _ other =>
    simp only [insideOnly, preterminal.injEq, NodeScores.mk.injEq, and_true] at same
    obtain ⟨rfl, rfl, inside⟩ := same
    exact ⟨other.outside, by rw [← inside]⟩
  | _ => simp [insideOnly] at same

theorem insideOnly_eq_unary (same : first.insideOnly = (unary state scores child).insideOnly) :
    ∃ outside inner, first = unary state ⟨scores.inside, outside⟩ inner ∧
      inner.insideOnly = child.insideOnly := by
  cases first with
  | unary _ other inner =>
    simp only [insideOnly, unary.injEq, NodeScores.mk.injEq, and_true] at same
    obtain ⟨rfl, inside, below⟩ := same
    exact ⟨other.outside, inner, by rw [← inside], below⟩
  | _ => simp [insideOnly] at same

theorem insideOnly_eq_binary
    (same : first.insideOnly = (binary state scores left right).insideOnly) :
    ∃ outside innerLeft innerRight,
      first = binary state ⟨scores.inside, outside⟩ innerLeft innerRight ∧
        innerLeft.insideOnly = left.insideOnly ∧ innerRight.insideOnly = right.insideOnly := by
  cases first with
  | binary _ other innerLeft innerRight =>
    simp only [insideOnly, binary.injEq, NodeScores.mk.injEq, and_true] at same
    obtain ⟨rfl, inside, leftBelow, rightBelow⟩ := same
    exact ⟨other.outside, innerLeft, innerRight, by rw [← inside], leftBelow, rightBelow⟩
  | _ => simp [insideOnly] at same

end Inside

variable [Scalar α] {tree other scored : LatentTree α} {model : Model α} {own : List Nat}

theorem fillInside_outsideOnly {position : Nat}
    (success : tree.fillInside model position = .ok scored) :
    scored.outsideOnly = tree.outsideOnly := by
  induction tree generalizing scored position with
  | preterminal state word scores =>
    obtain ⟨values, -, done⟩ := bind_eq_ok_iff.mp success
    obtain rfl := Except.ok.inj done
    rfl
  | unary state scores child ih =>
    obtain ⟨inner, below, success⟩ := bind_eq_ok_iff.mp success
    obtain ⟨values, -, done⟩ := bind_eq_ok_iff.mp success
    obtain rfl := Except.ok.inj done
    simp only [outsideOnly, ih below]
  | binary state scores left right leftIh rightIh =>
    obtain ⟨innerRight, rightBelow, success⟩ := bind_eq_ok_iff.mp success
    obtain ⟨innerLeft, leftBelow, success⟩ := bind_eq_ok_iff.mp success
    obtain ⟨values, -, done⟩ := bind_eq_ok_iff.mp success
    obtain rfl := Except.ok.inj done
    simp only [outsideOnly, leftIh leftBelow, rightIh rightBelow]

theorem computeInside_outsideOnly (success : tree.computeInside model = .ok scored) :
    scored.outsideOnly = tree.outsideOnly := by
  obtain ⟨-, -, filled⟩ := bind_eq_ok_iff.mp success
  exact fillInside_outsideOnly filled

/-- Outside scoring reads inside scores only, and overwrites all outside scores. -/
theorem fillOutside_congr (same : tree.insideOnly = other.insideOnly) (grammar : Grammar α)
    (outside : ScaledVector α) :
    tree.fillOutside grammar outside = other.fillOutside grammar outside := by
  induction other generalizing tree outside with
  | preterminal state word scores =>
    obtain ⟨_, rfl⟩ := insideOnly_eq_preterminal same
    rfl
  | unary state scores child ih =>
    obtain ⟨_, inner, rfl, below⟩ := insideOnly_eq_unary same
    simp only [fillOutside, substates, state_eq_of_skeleton (skeleton_eq_of_insideOnly below),
      inside_eq_of_insideOnly below, ih below]
  | binary state scores left right leftIh rightIh =>
    obtain ⟨_, innerLeft, innerRight, rfl, leftBelow, rightBelow⟩ := insideOnly_eq_binary same
    simp only [fillOutside, substates, state_eq_of_skeleton (skeleton_eq_of_insideOnly leftBelow),
      state_eq_of_skeleton (skeleton_eq_of_insideOnly rightBelow),
      inside_eq_of_insideOnly leftBelow, inside_eq_of_insideOnly rightBelow, leftIh leftBelow,
      rightIh rightBelow]

theorem Alike.length_outside (alike : tree.Alike other) :
    tree.outside.values.length = other.outside.values.length := by
  have kept (tree : LatentTree α) :
      tree.cleared.outside.values.length = tree.outside.values.length := by
    cases tree <;> simp [cleared, outside, LatentTree.scores, NodeScores.cleared]
  rw [← kept, alike, kept]

theorem computeBoth_congr (alike : tree.Alike other) (model : Model α) :
    tree.computeBoth model = other.computeBoth model := by
  have same := computeInside_congr alike model
  unfold computeBoth
  cases one : tree.computeInside model with
  | error fault =>
    cases two : other.computeInside model with
    | error fault' =>
      rw [one, two] at same
      rw [Except.error.inj same]
    | ok filled =>
      rw [one, two] at same
      cases same
  | ok filled =>
    cases two : other.computeInside model with
    | error fault =>
      rw [one, two] at same
      cases same
    | ok filled' =>
      rw [one, two] at same
      have top : filled.topOutside = filled'.topOutside := by
        rw [topOutside, topOutside, List.map_const', List.map_const',
          outside_eq_of_outsideOnly (computeInside_outsideOnly one),
          outside_eq_of_outsideOnly (computeInside_outsideOnly two), alike.length_outside]
      rw [ok_bind, ok_bind, top]
      exact fillOutside_congr (Except.ok.inj same) model.grammar _

theorem agrees_of_computeInside (success : tree.computeInside model = .ok scored) :
    tree.Agrees model := by
  obtain ⟨_, checked, -⟩ := bind_eq_ok_iff.mp success
  rw [checkSubstates_eq_find?] at checked
  rw [← find?_disagrees_eq_none_iff]
  cases found : tree.subtrees.find? (Disagrees model) with
  | none => rfl
  | some node =>
    rw [found] at checked
    cases checked

variable {categories root : Nat}

omit [Scalar α] in
theorem Agrees.matched (agrees : tree.Agrees model) (consistent : model.Consistent categories root) :
    tree.Matched model.grammar := by
  induction tree with
  | preterminal => exact trivial
  | unary state scores child ih =>
    obtain ⟨top, below⟩ := agrees_unary.mp agrees
    exact ⟨ih below, fun _ found =>
      (consistent.rules.find? found).sized_unary top below.top⟩
  | binary state scores left right leftIh rightIh =>
    obtain ⟨top, leftAgrees, rightAgrees⟩ := agrees_binary.mp agrees
    exact ⟨leftIh leftAgrees, rightIh rightAgrees, fun _ found =>
      (consistent.rules.find? found).sized_binary top leftAgrees.top rightAgrees.top⟩

/-- Only a category that the model does not have is in the way of inside scores. -/
theorem fillInside_of_agrees (consistent : model.Consistent categories root)
    (fits : tree.Fits own) (agrees : tree.Agrees model) (position : Nat) :
    Delivers (· = .outOfRange) (·.Alike tree) (tree.fillInside model position) := by
  refine fillInside_of_matched (agrees.matched consistent)
    (fun state word scores member position => ?_) position
  have size : scores.inside.values.length = (model.substates[state]?).getD 0 := agrees _ member
  cases found : model.substates[state]? with
  | none =>
    have absent : fetch model.lexicon.substates state = .error .outOfRange := by
      rw [consistent.substates_eq, fetch, show model.grammar.substates[state]? = none from found]
    rw [Lexicon.score_eq, absent]
    exact rfl
  | some known =>
    rw [found, Option.getD_some] at size
    rw [size]
    have room : scores.inside.values.length < Word.tableLimit := (fits _ member).room
    exact consistent.lexicon.answers word state position known (consistent.substates_eq ▸ found)
      (size ▸ room)

theorem computeInside_of_agrees (consistent : model.Consistent categories root)
    (fits : tree.Fits own) (agrees : tree.Agrees model) :
    Delivers (· = .outOfRange) (·.Alike tree) (tree.computeInside model) := by
  unfold computeInside
  rw [checkSubstates_eq_find?, find?_disagrees_eq_none_iff.mpr agrees]
  exact fillInside_of_agrees consistent fits agrees 0

theorem Alike.agrees (alike : tree.Alike other) (agrees : other.Agrees model) :
    tree.Agrees model := by
  have kept (tree : LatentTree α) : tree.cleared.Agrees model ↔ tree.Agrees model := by
    induction tree with
    | preterminal => simp [cleared, NodeScores.cleared]
    | unary _ _ _ ih => simp [cleared, NodeScores.cleared, ih]
    | binary _ _ _ _ left right => simp [cleared, NodeScores.cleared, left, right]
  rwa [← kept, alike, kept]

theorem computeBoth_of_agrees (consistent : model.Consistent categories root)
    (fits : tree.Fits own) (agrees : tree.Agrees model) :
    Delivers (· = .outOfRange) (·.Alike tree) (tree.computeBoth model) := by
  apply (computeInside_of_agrees consistent fits agrees).bind
  intro inner alike
  have innerFits := alike.fits fits
  refine (fillOutside_of_matched ((alike.agrees agrees).matched consistent) innerFits
    (hasSize_topOutside innerFits)).mono ?_
  exact fun outer again => again.trans alike

omit [Scalar α] in
/-- Where the model has all categories, a tree that agrees with it fits it. -/
theorem Agrees.fits (agrees : tree.Agrees model) (fits : tree.Fits own)
    (known : ∀ node ∈ tree.subtrees, node.state < model.substates.length) :
    tree.Fits model.substates := by
  intro node member
  have found := List.getElem?_eq_getElem (known node member)
  have size : node.scores.inside.values.length = _ := agrees node member
  rw [found, Option.getD_some] at size
  exact ⟨by rw [found, size], (fits node member).outside, (fits node member).room⟩

/-- Trees of one skeleton that agree with one model are alike. -/
theorem alike_of_agrees {own' : List Nat} (same : tree.skeleton = other.skeleton)
    (fits : tree.Fits own) (others : other.Fits own') (agrees : tree.Agrees model)
    (agree : other.Agrees model) : tree.Alike other := by
  have cleared_eq {one two : NodeScores α} {state : Nat} (fits : one.Fits own state)
      (others : two.Fits own' state)
      (size : one.inside.values.length = (model.substates[state]?).getD 0)
      (sizes : two.inside.values.length = (model.substates[state]?).getD 0) :
      one.cleared = two.cleared := by
    simp only [NodeScores.cleared, fits.outside, others.outside, size, sizes]
  induction other generalizing tree with
  | preterminal state word scores =>
    obtain ⟨_, rfl⟩ := skeleton_eq_preterminal same
    rw [fits_preterminal] at fits others
    rw [agrees_preterminal] at agrees agree
    exact alike_preterminal (cleared_eq fits others agrees agree)
  | unary state scores child ih =>
    obtain ⟨_, inner, rfl, below⟩ := skeleton_eq_unary same
    rw [fits_unary] at fits others
    rw [agrees_unary] at agrees agree
    exact alike_unary (cleared_eq fits.1 others.1 agrees.1 agree.1)
      (ih below fits.2 others.2 agrees.2 agree.2)
  | binary state scores left right leftIh rightIh =>
    obtain ⟨_, innerLeft, innerRight, rfl, leftBelow, rightBelow⟩ := skeleton_eq_binary same
    rw [fits_binary] at fits others
    rw [agrees_binary] at agrees agree
    exact alike_binary (cleared_eq fits.1 others.1 agrees.1 agree.1)
      (leftIh leftBelow fits.2.1 others.2.1 agrees.2.1 agree.2.1)
      (rightIh rightBelow fits.2.2 others.2.2 agrees.2.2 agree.2.2)

/-- What a tree becomes when it is scored again and again, inside or both ways, by models of a
kind. -/
inductive Worn (models : Model α → Prop) (tree : LatentTree α) : LatentTree α → Prop where
  | unscored : Worn models tree tree
  | inside {used scored : LatentTree α} {model : Model α} (before : Worn models tree used)
      (kind : models model) (success : used.computeInside model = .ok scored) :
      Worn models tree scored
  | both {used scored : LatentTree α} {model : Model α} (before : Worn models tree used)
      (kind : models model) (success : used.computeBoth model = .ok scored) :
      Worn models tree scored

theorem Worn.skeleton_eq {models : Model α → Prop} {used : LatentTree α}
    (worn : tree.Worn models used) : used.skeleton = tree.skeleton := by
  induction worn with
  | unscored => rfl
  | inside _ _ success ih => exact (computeInside_skeleton success).trans ih
  | both _ _ success ih => exact (computeBoth_skeleton success).trans ih

end LatentTree

end LatentGrammar
