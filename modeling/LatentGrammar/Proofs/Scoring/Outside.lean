import LatentGrammar.Proofs.Scoring.Inside
import LatentGrammar.Lexicon.Count

namespace LatentGrammar

open Finset

namespace LatentTree

variable {α : Type} [ExactScalar α]

/-- Every outside score below the top is what the rule above its node makes of the outside scores of
the parent and the inside scores of the sister. -/
def OutsideExact (grammar : Grammar α) : LatentTree α → Prop
  | preterminal .. => True
  | unary state scores child =>
    child.OutsideExact grammar ∧
      ∀ j < child.substates, child.outside.score j =
        ∑ i ∈ range scores.inside.values.length,
          grammar.rules.cell (.unary state child.state) i j 0 * scores.outside.score i
  | binary state scores left right =>
    left.OutsideExact grammar ∧ right.OutsideExact grammar ∧
      (∀ j < left.substates, left.outside.score j =
        ∑ i ∈ range scores.inside.values.length, ∑ k ∈ range right.substates,
          grammar.rules.cell (.binary state left.state right.state) i j k
            * scores.outside.score i * right.inside.score k) ∧
      ∀ k < right.substates, right.outside.score k =
        ∑ i ∈ range scores.inside.values.length, ∑ j ∈ range left.substates,
          grammar.rules.cell (.binary state left.state right.state) i j k
            * scores.outside.score i * left.inside.score j

variable {model : Model α} {grammar : Grammar α} {substates : List Nat}
  {tree scored node : LatentTree α} {outside : ScaledVector α}

omit [ExactScalar α] in
theorem fillOutside_top [Scalar α] {grammar : Grammar α}
    (success : tree.fillOutside grammar outside = .ok scored) :
    scored.inside = tree.inside ∧ scored.outside = outside := by
  cases tree with
  | preterminal state word scores =>
    obtain rfl := Except.ok.inj success
    exact ⟨rfl, rfl⟩
  | unary state scores child =>
    obtain ⟨_, -, rest⟩ := bind_eq_ok_iff.mp success
    obtain ⟨_, -, done⟩ := bind_eq_ok_iff.mp rest
    obtain rfl := Except.ok.inj done
    exact ⟨rfl, rfl⟩
  | binary state scores left right =>
    obtain ⟨_, -, rest⟩ := bind_eq_ok_iff.mp success
    obtain ⟨_, -, rest⟩ := bind_eq_ok_iff.mp rest
    obtain ⟨_, -, rest⟩ := bind_eq_ok_iff.mp rest
    obtain ⟨_, -, done⟩ := bind_eq_ok_iff.mp rest
    obtain rfl := Except.ok.inj done
    exact ⟨rfl, rfl⟩

/-- Filled in from above, outside scores are exact, and inside scores stay exact. -/
theorem fillOutside_exact (rules : model.grammar.rules.Fits substates)
    (fits : tree.Fits substates) (sized : HasSize outside.values tree.substates)
    (success : tree.fillOutside model.grammar outside = .ok scored) :
    scored.OutsideExact model.grammar ∧
      ∀ position, tree.InsideExact model position → scored.InsideExact model position := by
  have alike {tree scored : LatentTree α} {outside : ScaledVector α} (fits : tree.Fits substates)
      (sized : HasSize outside.values tree.substates)
      (success : tree.fillOutside model.grammar outside = .ok scored) : scored.Alike tree :=
    (fillOutside_delivers rules fits sized : Delivers Any _ _).of_ok success
  induction tree generalizing outside scored with
  | preterminal state word scores =>
    obtain rfl := Except.ok.inj success
    exact ⟨trivial, fun _ exact => exact⟩
  | unary state scores child ih =>
    rw [fits_unary] at fits
    obtain ⟨values, applied, rest⟩ := bind_eq_ok_iff.mp success
    obtain ⟨inner, below, done⟩ := bind_eq_ok_iff.mp rest
    obtain rfl := Except.ok.inj done
    have parents : outside.values.length = scores.inside.values.length := sized
    have block (rule : RuleBlock α)
        (found : model.grammar.rules.find? (.unary state child.state) = some rule) :
        rule.Sized outside.values.length child.substates 1 :=
      parents ▸ (rules.find? found).unary fits.1.inside fits.2.substates_eq
    have childSized := hasSize_applyRule
      (fun rule found => ⟨_, RuleBlock.outsideUnary_eq (block rule found), by simp [HasSize]⟩)
      applied outside.scale
    obtain ⟨childExact, kept⟩ := ih fits.2 childSized below
    obtain ⟨sameInside, newOutside⟩ := fillOutside_top below
    have same := alike fits.2 childSized below
    refine ⟨⟨childExact, fun j inside => ?_⟩, fun position exact => ⟨kept _ exact.1, ?_⟩⟩
    · rw [newOutside, score_outsideUnary block applied (inside.trans_eq same.substates_eq), parents,
        same.state_eq]
    · rw [same.substates_eq, same.state_eq, sameInside]
      exact exact.2
  | binary state scores left right leftIh rightIh =>
    rw [fits_binary] at fits
    obtain ⟨top, leftFits, rightFits⟩ := fits
    obtain ⟨leftValues, leftApplied, rest⟩ := bind_eq_ok_iff.mp success
    obtain ⟨rightValues, rightApplied, rest⟩ := bind_eq_ok_iff.mp rest
    obtain ⟨innerLeft, leftBelow, rest⟩ := bind_eq_ok_iff.mp rest
    obtain ⟨innerRight, rightBelow, done⟩ := bind_eq_ok_iff.mp rest
    obtain rfl := Except.ok.inj done
    have parents : outside.values.length = scores.inside.values.length := sized
    have block (rule : RuleBlock α)
        (found : model.grammar.rules.find? (.binary state left.state right.state) = some rule) :
        rule.Sized outside.values.length left.substates right.substates :=
      parents ▸
        (rules.find? found).binary top.inside leftFits.substates_eq rightFits.substates_eq
    have leftSized := hasSize_applyRule
      (fun rule found => ⟨_, RuleBlock.outsideLeft_eq (block rule found), by
        simp [HasSize, LatentTree.substates]⟩) leftApplied (outside.scale + right.inside.scale)
    have rightSized := hasSize_applyRule
      (fun rule found => ⟨_, RuleBlock.outsideRight_eq (block rule found), by
        simp [HasSize, LatentTree.substates]⟩) rightApplied (outside.scale + left.inside.scale)
    obtain ⟨leftExact, leftKept⟩ := leftIh leftFits leftSized leftBelow
    obtain ⟨rightExact, rightKept⟩ := rightIh rightFits rightSized rightBelow
    obtain ⟨leftInside, leftOutside⟩ := fillOutside_top leftBelow
    obtain ⟨rightInside, rightOutside⟩ := fillOutside_top rightBelow
    have leftSame := alike leftFits leftSized leftBelow
    have rightSame := alike rightFits rightSized rightBelow
    refine ⟨⟨leftExact, rightExact, fun j inside => ?_, fun k inside => ?_⟩,
      fun position exact => ⟨leftKept _ exact.1, ?_, ?_⟩⟩
    · rw [leftOutside, score_outsideLeft block leftApplied (inside.trans_eq leftSame.substates_eq),
        parents, leftSame.state_eq, rightSame.state_eq, rightSame.substates_eq, rightInside]
      rfl
    · rw [rightOutside,
        score_outsideRight block rightApplied (inside.trans_eq rightSame.substates_eq), parents,
        leftSame.state_eq, rightSame.state_eq, leftSame.substates_eq, leftInside]
      rfl
    · rw [leftSame.wordCount_eq]
      exact rightKept _ exact.2.1
    · rw [leftSame.substates_eq, rightSame.substates_eq, leftSame.state_eq, rightSame.state_eq,
        leftInside, rightInside]
      exact exact.2.2

/-- Sums over the derivations of a whole tree factor at every node: what they say of the part below
the node is summed over the derivations of that part, weighted by the outside scores of its top. -/
theorem OutsideExact.sum_derivations {position index before : Nat}
    (there : tree.At index before node) (outside : tree.OutsideExact model.grammar)
    (inside : tree.InsideExact model position) (f : Option Derivation → α) :
    ∑ d ∈ tree.derivations,
        tree.outside.score d.top * tree.weight model position d * f (d.part? index) =
      ∑ d ∈ node.derivations,
        node.outside.score d.top * node.weight model (position + before) d * f (some d) := by
  induction there generalizing position with
  | top tree => simp only [Derivation.part?_zero, Nat.add_zero]
  | @only state scores child node index before there ih =>
    let cell := model.grammar.rules.cell (.unary state child.state)
    let weight := child.weight model position
    rw [sum_derivations_unary, sum_comm, ← ih outside.1 inside.1]
    apply sum_congr rfl
    intro d member
    rw [outside.2 d.top (top_lt_of_mem member), sum_mul, sum_mul]
    apply sum_congr rfl
    intro s _
    show scores.outside.score s * (cell s d.top 0 * weight d) * f (d.part? index) = _
    ring
  | @left state scores left node right index before there ih =>
    let cell := model.grammar.rules.cell (.binary state left.state right.state)
    let leftWeight := left.weight model position
    let rightWeight := right.weight model (position + left.wordCount)
    rw [sum_derivations_binary, sum_comm, ← ih outside.1 inside.1]
    apply sum_congr rfl
    intro l member
    have below : index < l.parts.length := by
      rw [length_parts member]
      exact (List.getElem?_eq_some_iff.mp there.found).1
    rw [outside.2.2.1 l.top (top_lt_of_mem member), sum_mul, sum_mul]
    apply sum_congr rfl
    intro s _
    calc ∑ r ∈ right.derivations, scores.outside.score s
            * (cell s l.top r.top * (leftWeight l * rightWeight r))
            * f ((Derivation.binary s l r).part? (index + 1))
      _ = ∑ r ∈ right.derivations, cell s l.top r.top * scores.outside.score s * leftWeight l
            * f (l.part? index) * rightWeight r := by
          apply sum_congr rfl
          intro r _
          rw [Derivation.part?_left below]
          ring
      _ = ∑ k ∈ range right.substates, cell s l.top k * scores.outside.score s * leftWeight l
            * f (l.part? index) * right.inside.score k :=
          inside.2.1.sum_derivations fun k =>
            cell s l.top k * scores.outside.score s * leftWeight l * f (l.part? index)
      _ = (∑ k ∈ range right.substates, cell s l.top k * scores.outside.score s
            * right.inside.score k) * leftWeight l * f (l.part? index) := by
          rw [sum_mul, sum_mul]
          exact sum_congr rfl fun k _ => by ring
  | @right state scores left right node index before there ih =>
    let cell := model.grammar.rules.cell (.binary state left.state right.state)
    let leftWeight := left.weight model position
    let rightWeight := right.weight model (position + left.wordCount)
    rw [← Nat.add_assoc, ← ih outside.2.1 inside.2.1, sum_derivations_binary]
    calc ∑ s ∈ range scores.inside.values.length, ∑ l ∈ left.derivations, ∑ r ∈ right.derivations,
          scores.outside.score s * (cell s l.top r.top * (leftWeight l * rightWeight r))
            * f ((Derivation.binary s l r).part? (left.subtrees.length + index + 1))
      _ = ∑ r ∈ right.derivations, ∑ s ∈ range scores.inside.values.length,
          ∑ l ∈ left.derivations, cell s l.top r.top * scores.outside.score s * rightWeight r
            * f (r.part? index) * leftWeight l := by
          conv_rhs => rw [sum_comm]
          apply sum_congr rfl
          intro s _
          rw [sum_comm]
          refine sum_congr rfl fun r _ => sum_congr rfl fun l member => ?_
          rw [← length_parts member, Derivation.part?_right]
          ring
      _ = ∑ r ∈ right.derivations, right.outside.score r.top * rightWeight r
            * f (r.part? index) := by
          apply sum_congr rfl
          intro r member
          rw [outside.2.2.2 r.top (top_lt_of_mem member), sum_mul, sum_mul]
          apply sum_congr rfl
          intro s _
          rw [inside.1.sum_derivations fun j =>
            cell s j r.top * scores.outside.score s * rightWeight r * f (r.part? index), sum_mul,
            sum_mul]
          exact sum_congr rfl fun j _ => by ring

/-- What scoring aims at: exact scores at every node, and nothing outside the whole tree. -/
structure Exact (model : Model α) (tree : LatentTree α) : Prop where
  inside : tree.InsideExact model 0
  outside : tree.OutsideExact model.grammar
  top : ∀ s < tree.substates, tree.outside.score s = 1

theorem computeBoth_exact (rules : model.grammar.rules.Fits model.grammar.substates)
    (fits : tree.Fits model.grammar.substates) (lexical : tree.Fits model.lexicon.substates)
    (success : tree.computeBoth model = .ok scored) : scored.Exact model := by
  obtain ⟨inner, below, filled⟩ := bind_eq_ok_iff.mp success
  obtain ⟨alike, inside⟩ := computeInside_exact rules fits lexical below
  have innerFits := alike.fits fits
  have sized := hasSize_topOutside innerFits
  obtain ⟨outside, kept⟩ := fillOutside_exact rules innerFits sized filled
  obtain ⟨sameInside, newOutside⟩ := fillOutside_top filled
  refine ⟨kept 0 inside, outside, fun s below => ?_⟩
  have within : s < inner.outside.values.length :=
    (below.trans_eq (congrArg (·.values.length) sameInside)).trans_eq innerFits.top.outside.symm
  rw [newOutside]
  simp [ScaledVector.score, topOutside, within, ExactScalar.scaleFactor_eq]

/-- Trees that fit a model are scored inside and outside without a fault, and exactly. -/
theorem exists_computeBoth (rules : model.grammar.rules.Fits model.substates)
    (lexicon : model.lexicon.Consistent) (same : model.lexicon.substates = model.substates)
    (fits : tree.Fits model.substates) :
    ∃ scored, tree.computeBoth model = .ok scored ∧ scored.Alike tree ∧ scored.Exact model := by
  have lexical : tree.Fits model.lexicon.substates := same ▸ fits
  obtain ⟨scored, success, alike⟩ := delivers_never_iff.mp <|
    computeBoth_delivers rules lexicon.answers fits lexical
  exact ⟨scored, success, alike, computeBoth_exact rules fits lexical success⟩

namespace Exact

variable {index before : Nat}

theorem sum_derivations (exact : tree.Exact model) (there : tree.At index before node)
    (f : Option Derivation → α) :
    ∑ d ∈ tree.derivations, tree.weight model 0 d * f (d.part? index) =
      ∑ d ∈ node.derivations,
        node.outside.score d.top * node.weight model before d * f (some d) := by
  have sum := exact.outside.sum_derivations there exact.inside f
  rw [Nat.zero_add] at sum
  rw [← sum]
  apply sum_congr rfl
  intro d member
  rw [exact.top d.top (top_lt_of_mem member), one_mul]

/-- The weight of all derivations that give a node a substate is the product of its scores. -/
theorem sum_substate (exact : tree.Exact model) (there : tree.At index before node) {s : Nat}
    (below : s < node.substates) :
    ∑ d ∈ tree.derivations with (d.part? index).map Derivation.top = some s,
        tree.weight model 0 d =
      node.inside.score s * node.outside.score s := by
  have inside := exact.inside.at_ there
  rw [Nat.zero_add] at inside
  have chosen := exact.sum_derivations there fun part =>
    if part.map Derivation.top = some s then 1 else 0
  simp only [mul_ite, mul_one, mul_zero, Option.map_some, Option.some.injEq] at chosen
  rw [sum_filter, chosen]
  have collected := inside.sum_derivations fun t => if t = s then node.outside.score t else 0
  simp only [ite_mul, zero_mul] at collected
  rw [collected, sum_ite_eq' (range node.substates), if_pos (mem_range.mpr below), mul_comm]

theorem sum_scores (exact : tree.Exact model) (there : tree.At index before node) :
    ∑ s ∈ range node.substates, node.inside.score s * node.outside.score s =
      tree.totalWeight model := by
  have inside := exact.inside.at_ there
  rw [Nat.zero_add] at inside
  have all := exact.sum_derivations there fun _ => 1
  simp only [mul_one] at all
  rw [totalWeight, all, inside.sum_derivations]
  exact sum_congr rfl fun s _ => mul_comm _ _

end Exact

theorem posteriorIn_eq {mass : α} (positive : 0 < mass) (scale : Int)
    (sized : node.outside.values.length = node.inside.values.length) :
    node.posteriorIn mass scale = (List.range node.substates).map fun s =>
      node.inside.score s * node.outside.score s / (mass * Scalar.scaleFactor scale) := by
  have collect (i o si so s : α) : i * o * (si * so / s / mass) = i * si * (o * so) / (mass * s) := by
    rw [div_div, mul_comm s mass, mul_div_assoc']
    ring
  unfold posteriorIn
  rw [if_neg (not_le.mpr positive)]
  apply List.ext_getElem
  · simp [substates, sized]
  · intro s inPair inRange
    have within : s < node.inside.values.length := by simpa [LatentTree.substates] using inRange
    have withinOutside : s < node.outside.values.length := sized ▸ within
    simp only [List.getElem_map, List.getElem_zip, List.getElem_range, ScaledVector.score,
      ExactScalar.scaleFactor_sub, ExactScalar.scaleFactor_add, within, withinOutside,
      List.getElem?_eq_getElem, Option.getD_some]
    exact collect _ _ _ _ _

/-- A tree has positive mass if and only if its derivations have positive weight. -/
theorem Exact.mass_pos_iff (exact : tree.Exact model) (single : tree.substates = 1) :
    0 < entry tree.inside.values 0 ↔ 0 < tree.totalWeight model := by
  rw [← exact.inside.mass_mul single, mul_pos_iff_of_pos_right (ExactScalar.scaleFactor_pos _)]

theorem Alike.probability_eq {first second : LatentTree α} (alike : first.Alike second)
    (model : Model α) (event : Derivation → Prop) [DecidablePred event] :
    first.probability model event = second.probability model event := by
  rw [probability, probability, alike.totalWeight_eq, alike.derivations_eq, alike.weight_eq]

theorem Exact.posteriorIn_eq (exact : tree.Exact model) (single : tree.substates = 1)
    (positive : 0 < tree.totalWeight model) {index before : Nat}
    (there : tree.At index before node)
    (sized : node.outside.values.length = node.inside.values.length) :
    node.posteriorIn (entry tree.inside.values 0) tree.inside.scale =
      (List.range node.substates).map fun s =>
        tree.probability model fun d => (d.part? index).map Derivation.top = some s := by
  rw [LatentTree.posteriorIn_eq ((exact.mass_pos_iff single).mpr positive) _ sized,
    exact.inside.mass_mul single]
  apply List.map_congr_left
  intro s member
  rw [probability, exact.sum_substate there (List.mem_range.mp member)]

/-- The entries of a posterior add up to one. -/
theorem Exact.sum_probability (exact : tree.Exact model) (positive : 0 < tree.totalWeight model)
    {index before : Nat} (there : tree.At index before node) :
    ∑ s ∈ range node.substates,
      (tree.probability model fun d => (d.part? index).map Derivation.top = some s) = 1 := by
  have each (s : Nat) (member : s ∈ range node.substates) :
      (tree.probability model fun d => (d.part? index).map Derivation.top = some s) =
        node.inside.score s * node.outside.score s / tree.totalWeight model := by
    rw [probability, exact.sum_substate there (mem_range.mp member)]
  rw [sum_congr rfl each, ← sum_div, exact.sum_scores there, div_self positive.ne']

/-- Posteriors are the exact conditional marginals: the entry of a substate at any node is the share
of the total weight that the derivations with this substate at the node have. So they sum to one at
every node, wherever vectors were rescaled. -/
theorem posteriors_eq_probability (rules : model.grammar.rules.Fits model.grammar.substates)
    (lexicon : model.lexicon.Consistent) (fits : tree.Fits model.grammar.substates)
    (lexical : tree.Fits model.lexicon.substates) (single : tree.substates = 1)
    (positive : 0 < tree.totalWeight model) :
    ∃ scored rows, tree.computeBoth model = .ok scored ∧ scored.posteriors = .ok rows ∧
      ∀ (index : Nat) (node : LatentTree α), tree.subtrees[index]? = some node →
        ∃ row, rows[index]? = some row ∧ row.sum = 1 ∧
          row = (List.range node.substates).map fun s =>
            tree.probability model fun d => (d.part? index).map Derivation.top = some s := by
  obtain ⟨scored, success, alike⟩ := delivers_never_iff.mp <|
    computeBoth_delivers rules lexicon.answers fits lexical
  have exact := computeBoth_exact rules fits lexical success
  have one : scored.substates = 1 := alike.substates_eq.trans single
  have heavy : 0 < scored.totalWeight model := by rwa [alike.totalWeight_eq]
  refine ⟨scored, _, success, by rw [posteriors, mass_eq one]; rfl, fun index node found => ?_⟩
  obtain ⟨result, there, same⟩ := alike.at_ (at_of_getElem? found)
  have sized := ((alike.fits fits) result (List.mem_of_getElem? there.found)).outside
  have row := exact.posteriorIn_eq one heavy there sized
  have total := exact.sum_probability heavy there
  simp only [alike.probability_eq, same.substates_eq] at row total
  refine ⟨_, by rw [List.getElem?_map, there.found]; rfl, ?_, row⟩
  rw [row]
  exact total

theorem sampleTree_posteriors :
    ∃ scored rows, sampleTree.computeBoth sampleModel = .ok scored ∧ scored.posteriors = .ok rows ∧
      rows[2]? = some [3 / 4, 1 / 4] := by
  obtain ⟨scored, rows, success, found, marginal⟩ := posteriors_eq_probability
    sampleModel_rules_fit sampleModel_lexicon_consistent sampleTree_fits sampleTree_fits rfl
    (by decide +kernel)
  obtain ⟨row, there, -, same⟩ := marginal 2 (.preterminal 1 "rain" (blankScores 2)) rfl
  exact ⟨scored, rows, success, found, there.trans (congrArg some (same.trans (by decide +kernel)))⟩

end LatentTree

end LatentGrammar
