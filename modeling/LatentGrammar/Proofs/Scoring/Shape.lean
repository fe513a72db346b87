import LatentGrammar.Proofs.Dimensions
import LatentGrammar.Proofs.Emission

namespace LatentGrammar

variable {α : Type} [Scalar α] {allowed : Fault → Prop}

namespace RuleBlock

private theorem lt_of_mem_zipIdx {β : Type} {items : List β} {entry : β × Nat}
    (member : entry ∈ items.zipIdx) : entry.2 < items.length := by
  have found := List.mem_zipIdx_iff_getElem?.mp member
  exact (List.getElem?_eq_some_iff.mp found).1

private theorem sum_eq {β : Type} {scores : List β} {step : β → β × Nat → Except Fault β}
    {plain : β → β × Nat → β} {start : β}
    (each : ∀ sum score n, n < scores.length → step sum (score, n) = .ok (plain sum (score, n))) :
    scores.zipIdx.foldlM step start = .ok (scores.zipIdx.foldl plain start) :=
  foldlM_eq_foldl (fun sum (score, n) member => each sum score n (lt_of_mem_zipIdx member)) start

private theorem skip_eq {β : Type} {skipped : Prop} [Decidable skipped] {sum plain : β}
    {step : Except Fault β} (success : step = .ok plain) :
    (if skipped then pure sum else step) = .ok (if skipped then sum else plain) := by
  rw [success]
  split <;> rfl

variable {rule : RuleBlock α} {size : Nat} {parent child left right : List α}

theorem insideUnary_eq (sized : rule.Sized size child.length 1) :
    rule.insideUnary size child = .ok ((List.range size).map fun i =>
      child.zipIdx.foldl (fun sum (ic, j) => sum + rule.cell i j 0 * ic) 0) := by
  refine mapM_eq_map fun i below => sum_eq fun sum ic j left => ?_
  simp only [sized.get_eq (List.mem_range.mp below) left Nat.one_pos]
  rfl

theorem insideBinary_eq (sized : rule.Sized size left.length right.length) :
    rule.insideBinary size left right = .ok ((List.range size).map fun i =>
      left.zipIdx.foldl (fun sum (il, j) =>
        if il == 0 then sum
        else right.zipIdx.foldl (fun sum (ir, k) => sum + rule.cell i j k * il * ir) sum) 0) := by
  refine mapM_eq_map fun i below => sum_eq fun sum il j left => skip_eq ?_
  apply sum_eq
  intro sum ir k right
  simp only [sized.get_eq (List.mem_range.mp below) left right]
  rfl

theorem outsideUnary_eq (sized : rule.Sized parent.length size 1) :
    rule.outsideUnary size parent = .ok ((List.range size).map fun j =>
      parent.zipIdx.foldl (fun sum (op, i) =>
        if op == 0 then sum else sum + op * rule.cell i j 0) 0) := by
  refine mapM_eq_map fun j below => sum_eq fun sum op i parent => skip_eq ?_
  simp only [sized.get_eq parent (List.mem_range.mp below) Nat.one_pos]
  rfl

theorem outsideLeft_eq (sized : rule.Sized parent.length left.length right.length) :
    rule.outsideLeft parent left right = .ok ((List.range left.length).map fun j =>
      parent.zipIdx.foldl (fun sum (op, i) =>
        if op == 0 then sum
        else right.zipIdx.foldl (fun sum (ir, k) => sum + op * rule.cell i j k * ir) sum) 0) := by
  refine mapM_eq_map fun j below => sum_eq fun sum op i parent => skip_eq ?_
  apply sum_eq
  intro sum ir k right
  simp only [sized.get_eq parent (List.mem_range.mp below) right]
  rfl

theorem outsideRight_eq (sized : rule.Sized parent.length left.length right.length) :
    rule.outsideRight parent left right = .ok ((List.range right.length).map fun k =>
      parent.zipIdx.foldl (fun sum (op, i) =>
        if op == 0 then sum
        else left.zipIdx.foldl (fun sum (il, j) => sum + op * rule.cell i j k * il) sum) 0) := by
  refine mapM_eq_map fun k below => sum_eq fun sum op i parent => skip_eq ?_
  apply sum_eq
  intro sum il j left
  simp only [sized.get_eq parent left (List.mem_range.mp below)]
  rfl

end RuleBlock

@[simp] theorem ScaledVector.length_rescale (vector : ScaledVector α) :
    vector.rescale.values.length = vector.values.length := by
  unfold ScaledVector.rescale
  simp only
  split
  · rfl
  · split <;> simp

/-- Vectors of the same sizes with nothing in them. -/
def NodeScores.cleared (scores : NodeScores α) : NodeScores α :=
  ⟨⟨List.replicate scores.inside.values.length 0, 0⟩,
    ⟨List.replicate scores.outside.values.length 0, 0⟩⟩

namespace LatentTree

/-- The same tree with nothing scored. -/
def cleared : LatentTree α → LatentTree α
  | preterminal state word scores => .preterminal state word scores.cleared
  | unary state scores child => .unary state scores.cleared child.cleared
  | binary state scores left right => .binary state scores.cleared left.cleared right.cleared

@[simp] theorem state_cleared (tree : LatentTree α) : tree.cleared.state = tree.state := by
  cases tree <;> rfl

@[simp] theorem substates_cleared (tree : LatentTree α) :
    tree.cleared.substates = tree.substates := by
  cases tree <;> simp [cleared, substates, inside, scores, NodeScores.cleared]

@[simp] theorem wordCount_cleared (tree : LatentTree α) :
    tree.cleared.wordCount = tree.wordCount := by
  induction tree with
  | preterminal => rfl
  | unary _ _ _ ih => simpa [cleared, wordCount] using ih
  | binary _ _ _ _ left right => simp [cleared, wordCount, left, right]

@[simp] theorem NodeScores.fits_cleared {scores : NodeScores α} {substates : List Nat}
    {state : Nat} : scores.cleared.Fits substates state ↔ scores.Fits substates state := by
  constructor
  · rintro ⟨inside, outside, room⟩
    exact ⟨by simpa [NodeScores.cleared] using inside, by simpa [NodeScores.cleared] using outside,
      by simpa [NodeScores.cleared] using room⟩
  · rintro ⟨inside, outside, room⟩
    exact ⟨by simpa [NodeScores.cleared] using inside, by simpa [NodeScores.cleared] using outside,
      by simpa [NodeScores.cleared] using room⟩

@[simp] theorem fits_cleared {tree : LatentTree α} {substates : List Nat} :
    tree.cleared.Fits substates ↔ tree.Fits substates := by
  induction tree with
  | preterminal => simp [cleared]
  | unary _ _ _ ih => simp [cleared, ih]
  | binary _ _ _ _ left right => simp [cleared, left, right]

/-- The same trees, apart from the scores in them. -/
def Alike (first second : LatentTree α) : Prop := first.cleared = second.cleared

namespace Alike

variable {first second third : LatentTree α}

theorem trans (one : first.Alike second) (two : second.Alike third) : first.Alike third :=
  Eq.trans one two

theorem state_eq (alike : first.Alike second) : first.state = second.state := by
  simpa using congrArg state alike

theorem substates_eq (alike : first.Alike second) : first.substates = second.substates := by
  simpa using congrArg substates alike

theorem wordCount_eq (alike : first.Alike second) : first.wordCount = second.wordCount := by
  simpa using congrArg wordCount alike

theorem fits (alike : first.Alike second) {substates : List Nat} (fits : second.Fits substates) :
    first.Fits substates := by
  rw [← fits_cleared, alike, fits_cleared]
  exact fits

end Alike

theorem alike_preterminal {state : Nat} {word : String} {new old : NodeScores α}
    (same : new.cleared = old.cleared) :
    (preterminal state word new).Alike (preterminal state word old) := by
  simp [Alike, cleared, same]

theorem alike_unary {state : Nat} {new old : NodeScores α} {child other : LatentTree α}
    (same : new.cleared = old.cleared) (alike : child.Alike other) :
    (unary state new child).Alike (unary state old other) := by
  simp only [Alike, cleared, same, unary.injEq, true_and]
  exact alike

theorem alike_binary {state : Nat} {new old : NodeScores α} {left right first second : LatentTree α}
    (same : new.cleared = old.cleared) (leftAlike : left.Alike first)
    (rightAlike : right.Alike second) :
    (binary state new left right).Alike (binary state old first second) := by
  simp only [Alike, cleared, same, binary.injEq, true_and]
  exact ⟨leftAlike, rightAlike⟩

theorem cleared_inside {scores : NodeScores α} {inside : ScaledVector α}
    (sized : HasSize inside.values scores.inside.values.length) :
    { scores with inside }.cleared = scores.cleared := by
  simp only [NodeScores.cleared]
  rw [sized]

theorem cleared_outside {scores : NodeScores α} {outside : ScaledVector α}
    (sized : HasSize outside.values scores.outside.values.length) :
    { scores with outside }.cleared = scores.cleared := by
  simp only [NodeScores.cleared]
  rw [sized]

/-- A rule that the grammar lacks gives zeros; what is left to show is about rules that it has. -/
theorem delivers_applyRule {β : Type} {rule : Option (RuleBlock α)} {size : Nat}
    {apply : RuleBlock α → Except Fault (List α)} {property : β → Prop}
    {next : List α → Except Fault β}
    (each : ∀ block, rule = some block → ∃ values, apply block = .ok values ∧ HasSize values size)
    (rest : ∀ values, HasSize values size → Delivers allowed property (next values)) :
    Delivers allowed property (applyRule rule size apply >>= next) := by
  cases rule with
  | none => exact rest _ (by simp [HasSize])
  | some block =>
    obtain ⟨values, success, sized⟩ := each block rfl
    rw [applyRule, success]
    exact rest values sized

theorem hasSize_applyRule {rule : Option (RuleBlock α)} {size : Nat}
    {apply : RuleBlock α → Except Fault (List α)} {values : List α}
    (each : ∀ block, rule = some block → ∃ values, apply block = .ok values ∧ HasSize values size)
    (success : applyRule rule size apply = .ok values) (scale : Int) :
    HasSize (ScaledVector.rescale ⟨values, scale⟩).values size := by
  apply (ScaledVector.length_rescale _).trans
  cases rule with
  | none =>
    obtain rfl := Except.ok.inj success
    exact List.length_replicate
  | some block =>
    obtain ⟨result, computed, sized⟩ := each block rfl
    obtain rfl := Except.ok.inj (computed.symm.trans success)
    exact sized

variable {model : Model α} {substates : List Nat} {tree : LatentTree α}

/-- Where the grammar has the rule at a node of the tree, its block has the sizes of the vectors
there. -/
def Matched (grammar : Grammar α) : LatentTree α → Prop
  | preterminal .. => True
  | unary state scores child =>
    child.Matched grammar ∧ ∀ block, grammar.rule? (.unary state child.state) = some block →
      block.Sized scores.inside.values.length child.substates 1
  | binary state scores left right =>
    left.Matched grammar ∧ right.Matched grammar ∧
      ∀ block, grammar.rule? (.binary state left.state right.state) = some block →
        block.Sized scores.inside.values.length left.substates right.substates

omit [Scalar α] in
theorem Fits.matched {grammar : Grammar α} (rules : grammar.rules.Fits substates)
    (fits : tree.Fits substates) : tree.Matched grammar := by
  induction tree with
  | preterminal => exact trivial
  | unary state scores child ih =>
    obtain ⟨top, below⟩ := fits_unary.mp fits
    exact ⟨ih below, fun _ found => (rules.find? found).unary top.inside below.substates_eq⟩
  | binary state scores left right leftIh rightIh =>
    obtain ⟨top, leftFits, rightFits⟩ := fits_binary.mp fits
    exact ⟨leftIh leftFits, rightIh rightFits, fun _ found =>
      (rules.find? found).binary top.inside leftFits.substates_eq rightFits.substates_eq⟩

/-- Only words that the lexicon faults on are in the way of inside scores. -/
theorem fillInside_of_matched (matched : tree.Matched model.grammar)
    (words : ∀ state word scores, preterminal state word scores ∈ tree.subtrees → ∀ position,
      Delivers allowed (HasSize · scores.inside.values.length)
        (model.lexicon.score word state position)) (position : Nat) :
    Delivers allowed (·.Alike tree) (tree.fillInside model position) := by
  induction tree generalizing position with
  | preterminal state word scores =>
    apply (words state word scores (mem_subtrees_self _) position).bind
    intro values sized
    exact alike_preterminal (cleared_inside (by simpa [HasSize] using sized))
  | unary state scores child ih =>
    obtain ⟨below, block⟩ := matched
    apply (ih below (fun _ _ _ member => words _ _ _ (by simp [subtrees, member])) position).bind
    intro scored alike
    rw [← alike.state_eq, ← alike.substates_eq] at block
    refine delivers_applyRule (fun rule found => ?_) fun values sized => ?_
    · exact ⟨_, RuleBlock.insideUnary_eq (block rule found), by simp [HasSize]⟩
    · exact alike_unary (cleared_inside (by simpa [HasSize] using sized)) alike
  | binary state scores left right leftIh rightIh =>
    obtain ⟨leftBelow, rightBelow, block⟩ := matched
    apply (rightIh rightBelow (fun _ _ _ member => words _ _ _ (by simp [subtrees, member])) _).bind
    intro scoredRight rightAlike
    apply (leftIh leftBelow (fun _ _ _ member => words _ _ _ (by simp [subtrees, member])) _).bind
    intro scoredLeft leftAlike
    rw [← leftAlike.state_eq, ← leftAlike.substates_eq, ← rightAlike.state_eq,
      ← rightAlike.substates_eq] at block
    refine delivers_applyRule (fun rule found => ?_) fun values sized => ?_
    · exact ⟨_, RuleBlock.insideBinary_eq (block rule found), by simp [HasSize]⟩
    · exact alike_binary (cleared_inside (by simpa [HasSize] using sized)) leftAlike rightAlike

theorem fillInside_delivers (rules : model.grammar.rules.Fits substates)
    (answers : model.lexicon.Answers allowed) (fits : tree.Fits substates)
    (lexical : tree.Fits model.lexicon.substates) (position : Nat) :
    Delivers allowed (·.Alike tree) (tree.fillInside model position) := by
  refine fillInside_of_matched (fits.matched rules) (fun state word scores member position => ?_) _
  have known := lexical _ member
  exact answers word state position _ known.inside known.room

/-- Nothing is in the way of outside scores. -/
theorem fillOutside_of_matched {grammar : Grammar α} (matched : tree.Matched grammar)
    (fits : tree.Fits substates) {outside : ScaledVector α}
    (sized : HasSize outside.values tree.substates) :
    Delivers allowed (·.Alike tree) (tree.fillOutside grammar outside) := by
  induction tree generalizing outside with
  | preterminal state word scores =>
    rw [fits_preterminal] at fits
    exact alike_preterminal (cleared_outside (sized.trans fits.outside.symm))
  | unary state scores child ih =>
    obtain ⟨top, childFits⟩ := fits_unary.mp fits
    obtain ⟨below, block⟩ := matched
    rw [← show outside.values.length = scores.inside.values.length from sized] at block
    refine delivers_applyRule (fun rule found => ?_) fun values childSized => ?_
    · exact ⟨_, RuleBlock.outsideUnary_eq (block rule found), by simp [HasSize]⟩
    · apply (ih below childFits (by simpa [HasSize] using childSized)).bind
      intro scored alike
      exact alike_unary (cleared_outside (sized.trans top.outside.symm)) alike
  | binary state scores left right leftIh rightIh =>
    obtain ⟨top, leftFits, rightFits⟩ := fits_binary.mp fits
    obtain ⟨leftBelow, rightBelow, block⟩ := matched
    rw [← show outside.values.length = scores.inside.values.length from sized] at block
    refine delivers_applyRule
      (fun rule found => ⟨_, RuleBlock.outsideLeft_eq (block rule found), ?_⟩)
      fun leftValues leftSized => ?_
    · simp [HasSize, LatentTree.substates]
    refine delivers_applyRule
      (fun rule found => ⟨_, RuleBlock.outsideRight_eq (block rule found), ?_⟩)
      fun rightValues rightSized => ?_
    · simp [HasSize, LatentTree.substates]
    apply (leftIh leftBelow leftFits (by simpa [HasSize] using leftSized)).bind
    intro scoredLeft leftAlike
    refine (rightIh rightBelow rightFits (by simpa [HasSize] using rightSized)).bind
      fun scoredRight rightAlike => ?_
    exact alike_binary (cleared_outside (sized.trans top.outside.symm)) leftAlike rightAlike

theorem fillOutside_delivers {grammar : Grammar α} (rules : grammar.rules.Fits substates)
    (fits : tree.Fits substates) {outside : ScaledVector α}
    (sized : HasSize outside.values tree.substates) :
    Delivers allowed (·.Alike tree) (tree.fillOutside grammar outside) :=
  fillOutside_of_matched (fits.matched rules) fits sized

omit [Scalar α] in
theorem checkSubstates_eq (fits : tree.Fits substates) : tree.checkSubstates substates = .ok () := by
  apply forM_eq_ok
  intro node member
  have found := (fits node member).inside
  simp [found, LatentTree.substates, inside]

theorem computeInside_delivers (rules : model.grammar.rules.Fits model.grammar.substates)
    (answers : model.lexicon.Answers allowed) (fits : tree.Fits model.grammar.substates)
    (lexical : tree.Fits model.lexicon.substates) :
    Delivers allowed (·.Alike tree) (tree.computeInside model) := by
  unfold computeInside
  rw [show model.substates = model.grammar.substates from rfl, checkSubstates_eq fits]
  exact fillInside_delivers rules answers fits lexical 0

theorem hasSize_topOutside (fits : tree.Fits substates) :
    HasSize tree.topOutside.values tree.substates := by
  rw [HasSize, topOutside, List.length_map]
  exact fits.top.outside

theorem computeBoth_delivers (rules : model.grammar.rules.Fits model.grammar.substates)
    (answers : model.lexicon.Answers allowed) (fits : tree.Fits model.grammar.substates)
    (lexical : tree.Fits model.lexicon.substates) :
    Delivers allowed (·.Alike tree) (tree.computeBoth model) := by
  apply (computeInside_delivers rules answers fits lexical).bind
  intro inner alike
  have innerFits := alike.fits fits
  refine (fillOutside_delivers rules innerFits (hasSize_topOutside innerFits)).mono ?_
  exact fun outer again => again.trans alike

end LatentTree

end LatentGrammar
