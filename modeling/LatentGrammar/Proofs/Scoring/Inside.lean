import LatentGrammar.Proofs.Scoring.Derivation
import LatentGrammar.Proofs.Scoring.Sums

namespace LatentGrammar

open Finset

namespace LatentTree

variable {α : Type} [ExactScalar α]

/-- Every inside score is what the rule or word at its node makes of the inside scores right
below. -/
def InsideExact (model : Model α) : Nat → LatentTree α → Prop
  | position, preterminal state word scores =>
    ∀ s < scores.inside.values.length,
      scores.inside.score s = model.lexicon.emission word state position s
  | position, unary state scores child =>
    child.InsideExact model position ∧
      ∀ s < scores.inside.values.length, scores.inside.score s =
        ∑ j ∈ range child.substates,
          model.grammar.rules.cell (.unary state child.state) s j 0 * child.inside.score j
  | position, binary state scores left right =>
    left.InsideExact model position ∧ right.InsideExact model (position + left.wordCount) ∧
      ∀ s < scores.inside.values.length, scores.inside.score s =
        ∑ j ∈ range left.substates, ∑ k ∈ range right.substates,
          model.grammar.rules.cell (.binary state left.state right.state) s j k
            * left.inside.score j * right.inside.score k

variable {model : Model α} {substates : List Nat} {tree scored node : LatentTree α}

/-- Filled in from below, inside scores are exact, whether or not vectors are rescaled. -/
theorem fillInside_exact {position : Nat} (rules : model.grammar.rules.Fits substates)
    (fits : tree.Fits substates) (lexical : tree.Fits model.lexicon.substates)
    (success : tree.fillInside model position = .ok scored) :
    scored.InsideExact model position := by
  have alike {tree scored : LatentTree α} {position : Nat} (fits : tree.Fits substates)
      (lexical : tree.Fits model.lexicon.substates)
      (success : tree.fillInside model position = .ok scored) : scored.Alike tree :=
    (fillInside_delivers rules model.lexicon.answers_any fits lexical position).of_ok success
  induction tree generalizing position scored with
  | preterminal state word scores =>
    obtain ⟨values, answer, done⟩ := bind_eq_ok_iff.mp success
    obtain rfl := Except.ok.inj done
    intro s _
    rw [ScaledVector.score_rescale, Lexicon.emission, answer]
    simp [ScaledVector.score, ExactScalar.scaleFactor_eq]
  | unary state scores child ih =>
    have size := (alike fits lexical success).substates_eq
    rw [fits_unary] at fits lexical
    obtain ⟨inner, below, rest⟩ := bind_eq_ok_iff.mp success
    obtain ⟨values, applied, done⟩ := bind_eq_ok_iff.mp rest
    obtain rfl := Except.ok.inj done
    have innerCount := ((alike fits.2 lexical.2 below).fits fits.2).substates_eq
    constructor
    · exact ih fits.2 lexical.2 below
    · intro s inside
      exact score_insideUnary
        (fun block found => (rules.find? found).unary fits.1.inside innerCount) applied
        (inside.trans_eq size)
  | binary state scores left right leftIh rightIh =>
    have size := (alike fits lexical success).substates_eq
    rw [fits_binary] at fits lexical
    obtain ⟨top, leftFits, rightFits⟩ := fits
    obtain ⟨innerRight, rightBelow, rest⟩ := bind_eq_ok_iff.mp success
    obtain ⟨innerLeft, leftBelow, rest⟩ := bind_eq_ok_iff.mp rest
    obtain ⟨values, applied, done⟩ := bind_eq_ok_iff.mp rest
    obtain rfl := Except.ok.inj done
    have leftAlike := alike leftFits lexical.2.1 leftBelow
    have rightAlike := alike rightFits lexical.2.2 rightBelow
    have leftCount := (leftAlike.fits leftFits).substates_eq
    have rightCount := (rightAlike.fits rightFits).substates_eq
    rw [← leftAlike.wordCount_eq] at rightBelow
    refine ⟨leftIh leftFits lexical.2.1 leftBelow, rightIh rightFits lexical.2.2 rightBelow,
      fun s inside => ?_⟩
    exact score_insideBinary
      (fun block found => (rules.find? found).binary top.inside leftCount rightCount) applied
      (inside.trans_eq size)

/-- Sums over pairs that look at the two top substates only, for two sets of derivations over each of
which such a sum is a sum over scores. -/
theorem sum_pairs {firsts seconds : Finset Derivation}
    {firstWeight secondWeight : Derivation → α} {firstScore secondScore : Nat → α}
    {firstSize secondSize : Nat}
    (first : ∀ f : Nat → α, ∑ d ∈ firsts, f d.top * firstWeight d =
      ∑ s ∈ range firstSize, f s * firstScore s)
    (second : ∀ f : Nat → α, ∑ d ∈ seconds, f d.top * secondWeight d =
      ∑ s ∈ range secondSize, f s * secondScore s) (f : Nat → Nat → α) :
    ∑ l ∈ firsts, ∑ r ∈ seconds, f l.top r.top * (firstWeight l * secondWeight r) =
      ∑ j ∈ range firstSize, ∑ k ∈ range secondSize,
        f j k * firstScore j * secondScore k := by
  calc ∑ l ∈ firsts, ∑ r ∈ seconds, f l.top r.top * (firstWeight l * secondWeight r)
    _ = ∑ l ∈ firsts, ∑ r ∈ seconds, f l.top r.top * firstWeight l * secondWeight r :=
        sum_congr rfl fun l _ => sum_congr rfl fun r _ => (mul_assoc _ _ _).symm
    _ = ∑ l ∈ firsts, ∑ k ∈ range secondSize, f l.top k * firstWeight l * secondScore k :=
        sum_congr rfl fun l _ => second fun k => f l.top k * firstWeight l
    _ = ∑ k ∈ range secondSize, ∑ l ∈ firsts, f l.top k * secondScore k * firstWeight l := by
        rw [sum_comm]
        exact sum_congr rfl fun k _ => sum_congr rfl fun l _ => by ring
    _ = ∑ k ∈ range secondSize, ∑ j ∈ range firstSize, f j k * secondScore k * firstScore j :=
        sum_congr rfl fun k _ => first fun j => f j k * secondScore k
    _ = ∑ j ∈ range firstSize, ∑ k ∈ range secondSize, f j k * firstScore j * secondScore k := by
        rw [sum_comm]
        exact sum_congr rfl fun j _ => sum_congr rfl fun k _ => by ring

/-- A sum over all derivations that looks at the top substate only is a sum over inside scores. -/
theorem InsideExact.sum_derivations {position : Nat} (exact : tree.InsideExact model position)
    (f : Nat → α) :
    ∑ d ∈ tree.derivations, f d.top * tree.weight model position d =
      ∑ s ∈ range tree.substates, f s * tree.inside.score s := by
  induction tree generalizing position f with
  | preterminal state word scores =>
    rw [sum_derivations_preterminal]
    apply sum_congr rfl
    intro s inside
    rw [LatentTree.inside, LatentTree.scores, exact s (mem_range.mp inside)]
    rfl
  | unary state scores child ih =>
    obtain ⟨below, here⟩ := exact
    let cell := model.grammar.rules.cell (.unary state child.state)
    rw [sum_derivations_unary]
    apply sum_congr rfl
    intro s inside
    rw [LatentTree.inside, LatentTree.scores, here s (mem_range.mp inside), mul_sum]
    calc ∑ d ∈ child.derivations, f s * (cell s d.top 0 * child.weight model position d)
      _ = ∑ d ∈ child.derivations, f s * cell s d.top 0 * child.weight model position d :=
          sum_congr rfl fun d _ => (mul_assoc _ _ _).symm
      _ = ∑ j ∈ range child.substates, f s * cell s j 0 * child.inside.score j :=
          ih below fun j => f s * cell s j 0
      _ = ∑ j ∈ range child.substates, f s * (cell s j 0 * child.inside.score j) :=
          sum_congr rfl fun j _ => mul_assoc _ _ _
  | binary state scores left right leftIh rightIh =>
    obtain ⟨leftExact, rightExact, here⟩ := exact
    let cell := model.grammar.rules.cell (.binary state left.state right.state)
    let leftWeight := left.weight model position
    let rightWeight := right.weight model (position + left.wordCount)
    rw [sum_derivations_binary]
    apply sum_congr rfl
    intro s inside
    rw [LatentTree.inside, LatentTree.scores, here s (mem_range.mp inside), mul_sum]
    calc ∑ l ∈ left.derivations, ∑ r ∈ right.derivations,
          f s * (cell s l.top r.top * (leftWeight l * rightWeight r))
      _ = ∑ l ∈ left.derivations, ∑ r ∈ right.derivations,
          f s * cell s l.top r.top * (leftWeight l * rightWeight r) :=
          sum_congr rfl fun l _ => sum_congr rfl fun r _ => (mul_assoc _ _ _).symm
      _ = ∑ j ∈ range left.substates, ∑ k ∈ range right.substates,
          f s * cell s j k * left.inside.score j * right.inside.score k :=
          sum_pairs (leftIh leftExact) (rightIh rightExact) fun j k => f s * cell s j k
      _ = ∑ j ∈ range left.substates,
          f s * ∑ k ∈ range right.substates, cell s j k * left.inside.score j
            * right.inside.score k := by
          apply sum_congr rfl
          intro j _
          rw [mul_sum]
          exact sum_congr rfl fun k _ => by ring

theorem InsideExact.at_ {position index before : Nat} (there : tree.At index before node)
    (exact : tree.InsideExact model position) : node.InsideExact model (position + before) := by
  induction there generalizing position with
  | top => exact exact
  | only _ _ _ ih => exact ih exact.1
  | left _ _ _ _ ih => exact ih exact.1
  | right _ _ _ _ ih =>
    rw [← Nat.add_assoc]
    exact ih exact.2.1

/-- An inside score is the total weight of the derivations with its substate at the top. -/
theorem InsideExact.score_eq_sum {position s : Nat} (exact : tree.InsideExact model position)
    (below : s < tree.substates) :
    tree.inside.score s =
      ∑ d ∈ tree.derivations with d.top = s, tree.weight model position d := by
  have chosen := exact.sum_derivations fun t => if t = s then 1 else 0
  simp only [ite_mul, one_mul, zero_mul] at chosen
  rw [sum_filter, chosen, sum_ite_eq' (range tree.substates) s tree.inside.score,
    if_pos (mem_range.mpr below)]

theorem computeInside_exact (rules : model.grammar.rules.Fits model.grammar.substates)
    (fits : tree.Fits model.grammar.substates) (lexical : tree.Fits model.lexicon.substates)
    (success : tree.computeInside model = .ok scored) :
    scored.Alike tree ∧ scored.InsideExact model 0 := by
  have alike :=
    (computeInside_delivers rules model.lexicon.answers_any fits lexical).of_ok success
  obtain ⟨-, -, filled⟩ := bind_eq_ok_iff.mp success
  exact ⟨alike, fillInside_exact rules fits lexical filled⟩

/-- Trees that fit a model are scored without a fault, and exactly. -/
theorem exists_computeInside (rules : model.grammar.rules.Fits model.substates)
    (lexicon : model.lexicon.Consistent) (same : model.lexicon.substates = model.substates)
    (fits : tree.Fits model.substates) :
    ∃ scored, tree.computeInside model = .ok scored ∧ scored.Alike tree ∧
      scored.InsideExact model 0 := by
  have lexical : tree.Fits model.lexicon.substates := same ▸ fits
  obtain ⟨scored, success, -⟩ := delivers_never_iff.mp <|
    computeInside_delivers rules lexicon.answers fits lexical
  exact ⟨scored, success, computeInside_exact rules fits lexical success⟩

theorem Alike.totalWeight_eq {first second : LatentTree α} (alike : first.Alike second)
    (model : Model α) : first.totalWeight model = second.totalWeight model := by
  rw [totalWeight, totalWeight, alike.derivations_eq, alike.weight_eq]

/-- The mass of a tree, taken out of its scale, is the total weight of its derivations. -/
theorem InsideExact.mass_mul (exact : tree.InsideExact model 0) (single : tree.substates = 1) :
    entry tree.inside.values 0 * Scalar.scaleFactor tree.inside.scale = tree.totalWeight model := by
  have total := exact.sum_derivations fun _ => 1
  simp only [one_mul, single, sum_range_one] at total
  exact total.symm

theorem mass_eq_of_nonempty (some : 0 < tree.substates) :
    tree.mass = .ok (entry tree.inside.values 0) := by
  have nonempty : 0 < tree.inside.values.length := some
  simp [mass, entry, nonempty]

theorem mass_eq (single : tree.substates = 1) : tree.mass = .ok (entry tree.inside.values 0) :=
  mass_eq_of_nonempty (single ▸ Nat.one_pos)

/-- Inside scoring computes the marginals of the model: the inside score of a substate at any node,
taken out of its scale, is the total weight of the derivations of the subtree below that give the
node this substate. A tree with one substate at the top gets the total weight of all its
derivations. -/
theorem computeInside_eq_sum_derivations
    (rules : model.grammar.rules.Fits model.grammar.substates)
    (fits : tree.Fits model.grammar.substates) (lexical : tree.Fits model.lexicon.substates)
    (success : tree.computeInside model = .ok scored) :
    (∀ (index : Nat) (node : LatentTree α), tree.subtrees[index]? = some node →
      ∃ result, scored.subtrees[index]? = some result ∧ result.Alike node ∧
        ∀ s < node.substates, result.inside.score s =
          ∑ d ∈ node.derivations with d.top = s, node.weight model (tree.wordsBefore index) d) ∧
    (tree.substates = 1 → ∃ mass, scored.mass = .ok mass ∧
      mass * Scalar.scaleFactor scored.inside.scale = tree.totalWeight model) := by
  obtain ⟨alike, exact⟩ := computeInside_exact rules fits lexical success
  constructor
  · intro index node found
    obtain ⟨result, there, same⟩ := alike.at_ (at_of_getElem? found)
    refine ⟨result, there.found, same, fun s below => ?_⟩
    rw [← same.substates_eq] at below
    have score := (exact.at_ there).score_eq_sum below
    rwa [Nat.zero_add, same.derivations_eq, same.weight_eq] at score
  · intro single
    have one : scored.substates = 1 := alike.substates_eq.trans single
    exact ⟨_, mass_eq one, (exact.mass_mul one).trans (alike.totalWeight_eq model)⟩

theorem sampleTree_mass :
    ∃ scored mass, sampleTree.computeInside sampleModel = .ok scored ∧ scored.mass = .ok mass ∧
      mass * Scalar.scaleFactor scored.inside.scale = 3 / 16 := by
  obtain ⟨scored, success, -⟩ := delivers_never_iff.mp <|
    computeInside_delivers sampleModel_rules_fit sampleModel_lexicon_consistent.answers
      sampleTree_fits sampleTree_fits
  obtain ⟨mass, found, total⟩ := (computeInside_eq_sum_derivations sampleModel_rules_fit
    sampleTree_fits sampleTree_fits success).2 rfl
  exact ⟨scored, mass, success, found, total.trans (by decide +kernel)⟩

end LatentTree

end LatentGrammar
