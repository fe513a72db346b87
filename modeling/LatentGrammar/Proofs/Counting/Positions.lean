import LatentGrammar.Proofs.Bookkeeping.Sums
import LatentGrammar.Proofs.Layout.Building
import LatentGrammar.Proofs.Layout.Rewording

/-! Positions of words. Scoring, counting and replacing words all tell the first word of a sentence
from the others, and each counts words in its own way. They agree with one another: the position is
the number of words to the left in the tree that the latent tree was built from. So a rare word is
counted under the signature that it is scored under. -/

namespace LatentGrammar

/-- The words to the left of a place, in the subtrees that the path to it leaves on the left. -/
def Tree.wordsLeft (tree : Tree) : List Nat → List String
  | [] => []
  | i :: path =>
    (tree.children.take i).flatMap words ++
      tree.children[i]?.elim [] fun child => child.wordsLeft path

theorem Tree.words_at? {tree part : Tree} {path : List Nat} (found : tree.at? path = some part) :
    ∃ right, tree.words = tree.wordsLeft path ++ part.words ++ right := by
  induction path generalizing tree with
  | nil =>
    obtain rfl := Option.some.inj found
    exact ⟨[], by simp [wordsLeft]⟩
  | cons i path ih =>
    obtain ⟨child, here, found⟩ := at?_cons_eq_some_iff.mp found
    obtain ⟨right, split⟩ := ih found
    obtain ⟨label, children⟩ := tree
    rw [children_node] at here
    have wide : children ≠ [] := List.ne_nil_of_mem (List.mem_of_getElem? here)
    obtain ⟨below, rfl⟩ := List.getElem?_eq_some_iff.mp here
    refine ⟨right ++ (children.drop (i + 1)).flatMap words, ?_⟩
    calc (node label children).words
        = (children.take i ++ children[i] :: children.drop (i + 1)).flatMap words := by
          rw [← List.drop_eq_getElem_cons below, List.take_append_drop, words_node label wide]
      _ = (children.take i).flatMap words ++
            (children[i].words ++ (children.drop (i + 1)).flatMap words) := by
          rw [List.flatMap_append, List.flatMap_cons]
      _ = _ := by
          rw [split]
          simp [wordsLeft, here]

namespace LatentTree

variable {α : Type}

/-- The subtree at the end of a path of child numbers. -/
def at? : LatentTree α → List Nat → Option (LatentTree α)
  | tree, [] => some tree
  | unary _ _ child, 0 :: path => child.at? path
  | binary _ _ left _, 0 :: path => left.at? path
  | binary _ _ _ right, 1 :: path => right.at? path
  | _, _ => none

/-- The number of words to the left of a place. -/
def wordsLeft : LatentTree α → List Nat → Nat
  | unary _ _ child, 0 :: path => child.wordsLeft path
  | binary _ _ left _, 0 :: path => left.wordsLeft path
  | binary _ _ left right, 1 :: path => left.wordCount + right.wordsLeft path
  | _, _ => 0

variable {tree : LatentTree α} {path : List Nat} {state : Nat} {word : String}
  {scores : NodeScores α}

@[simp] theorem length_preterminals (tree : LatentTree α) :
    tree.preterminals.length = tree.wordCount := by
  induction tree with
  | preterminal => rfl
  | unary _ _ _ ih => rw [preterminals, ih, wordCount]
  | binary _ _ _ _ leftIh rightIh =>
    rw [preterminals, List.length_append, leftIh, rightIh, wordCount]

/-- Among the preterminals, a node stands behind those to its left. -/
theorem preterminals_getElem? (found : tree.at? path = some (preterminal state word scores)) :
    tree.preterminals[tree.wordsLeft path]? = some (preterminal state word scores) := by
  fun_induction at? tree path with
  | case1 tree =>
    obtain rfl := Option.some.inj found
    rfl
  | case2 _ _ child path ih => exact ih found
  | case3 _ _ left right path ih =>
    have inside := (List.getElem?_eq_some_iff.mp (ih found)).1
    rw [preterminals, wordsLeft, List.getElem?_append_left inside]
    exact ih found
  | case4 _ _ left right path ih =>
    rw [preterminals, wordsLeft, List.getElem?_append_right (by simp), length_preterminals,
      Nat.add_sub_cancel_left]
    exact ih found
  | case5 => cases found

theorem exists_place {k : Nat} (below : k < tree.wordCount) :
    ∃ path state word scores, tree.at? path = some (preterminal state word scores) ∧
      tree.wordsLeft path = k := by
  induction tree generalizing k with
  | preterminal state word scores =>
    exact ⟨[], state, word, scores, rfl, (Nat.lt_one_iff.mp below).symm⟩
  | unary _ _ _ ih =>
    obtain ⟨path, state, word, scores, found, left⟩ := ih below
    exact ⟨0 :: path, state, word, scores, found, left⟩
  | binary _ _ left right leftIh rightIh =>
    rw [wordCount] at below
    by_cases inLeft : k < left.wordCount
    · obtain ⟨path, state, word, scores, found, count⟩ := leftIh inLeft
      exact ⟨0 :: path, state, word, scores, found, count⟩
    · obtain ⟨path, state, word, scores, found, count⟩ :=
        rightIh (k := k - left.wordCount) (by omega)
      exact ⟨1 :: path, state, word, scores, found, by rw [wordsLeft, count]; omega⟩

theorem wordsAhead_append_left {table other : List (Node α)} {i : Nat} (inside : i ≤ table.length) :
    wordsAhead (table ++ other) i = wordsAhead table i := by
  rw [wordsAhead, List.take_append_of_le_length inside, wordsAhead]

theorem wordsAhead_append_right (table other : List (Node α)) (i : Nat) :
    wordsAhead (table ++ other) (table.length + i) =
      table.countP (·.word.isSome) + wordsAhead other i := by
  rw [wordsAhead, List.take_length_add_append, List.countP_append, wordsAhead]

/-- In the table of a tree, as many words stand in front of a node as to its left. -/
theorem exists_position (found : tree.at? path = some (preterminal state word scores))
    (start : Nat) :
    ∃ i : Nat, (tree.nodesFrom start)[i]? = some ⟨state, some word, [], scores⟩ ∧
      wordsAhead (tree.nodesFrom start) i = tree.wordsLeft path := by
  fun_induction at? tree path generalizing start with
  | case1 tree =>
    obtain rfl := Option.some.inj found
    exact ⟨0, rfl, rfl⟩
  | case2 _ _ child path ih =>
    obtain ⟨i, here, ahead⟩ := ih found (start + 1)
    exact ⟨i + 1, here, by rw [nodesFrom, wordsAhead_cons, ahead, wordsLeft]; simp⟩
  | case3 _ _ left right path ih =>
    obtain ⟨i, here, ahead⟩ := ih found (start + 1)
    have inside := (List.getElem?_eq_some_iff.mp here).1
    refine ⟨i + 1, ?_, ?_⟩
    · rw [nodesFrom, List.getElem?_cons_succ, List.getElem?_append_left inside, here]
    · rw [nodesFrom, wordsAhead_cons, wordsAhead_append_left inside.le, ahead, wordsLeft]
      simp
  | case4 _ _ left right path ih =>
    obtain ⟨i, here, ahead⟩ := ih found (start + 1 + left.size)
    refine ⟨(left.nodesFrom (start + 1)).length + i + 1, ?_, ?_⟩
    · rw [nodesFrom, List.getElem?_cons_succ, List.getElem?_append_right (Nat.le_add_right _ _),
        Nat.add_sub_cancel_left, here]
    · rw [nodesFrom, wordsAhead_cons, wordsAhead_append_right, countP_nodesFrom, ahead, wordsLeft]
      simp
  | case5 => cases found

/-- Where a node stands, its word is replaced for its position. -/
theorem mapWords_at? (f : String → Nat → String)
    (found : tree.at? path = some (preterminal state word scores)) (position : Nat) :
    (tree.mapWords f position).at? path =
      some (preterminal state (f word (position + tree.wordsLeft path)) scores) := by
  fun_induction at? tree path generalizing position with
  | case1 tree =>
    obtain rfl := Option.some.inj found
    rfl
  | case2 _ _ child path ih => exact ih found position
  | case3 _ _ left right path ih => exact ih found position
  | case4 _ _ left right path ih =>
    rw [mapWords, at?, wordsLeft, ih found, Nat.add_assoc]
  | case5 => cases found

/-- Where a node stands, the lexicon is asked for the score of its word at its position. -/
theorem fillInside_at? [Scalar α] {model : Model α} {scored : LatentTree α} {position : Nat}
    (filled : tree.fillInside model position = .ok scored)
    (found : tree.at? path = some (preterminal state word scores)) :
    ∃ values, model.lexicon.score word state (position + tree.wordsLeft path) = .ok values ∧
      scored.at? path = some
        (preterminal state word { scores with inside := ScaledVector.rescale ⟨values, 0⟩ }) := by
  fun_induction at? tree path generalizing position scored with
  | case1 tree =>
    obtain rfl := Option.some.inj found
    obtain ⟨values, asked, done⟩ := bind_eq_ok_iff.mp filled
    obtain rfl := Except.ok.inj done
    exact ⟨values, asked, rfl⟩
  | case2 _ _ child path ih =>
    obtain ⟨inner, below, filled⟩ := bind_eq_ok_iff.mp filled
    obtain ⟨_, -, done⟩ := bind_eq_ok_iff.mp filled
    obtain rfl := Except.ok.inj done
    exact ih below found
  | case3 _ _ left right path ih =>
    obtain ⟨innerRight, -, filled⟩ := bind_eq_ok_iff.mp filled
    obtain ⟨innerLeft, below, filled⟩ := bind_eq_ok_iff.mp filled
    obtain ⟨_, -, done⟩ := bind_eq_ok_iff.mp filled
    obtain rfl := Except.ok.inj done
    exact ih below found
  | case4 _ _ left right path ih =>
    obtain ⟨innerRight, below, filled⟩ := bind_eq_ok_iff.mp filled
    obtain ⟨innerLeft, -, filled⟩ := bind_eq_ok_iff.mp filled
    obtain ⟨_, -, done⟩ := bind_eq_ok_iff.mp filled
    obtain rfl := Except.ok.inj done
    -- the right part is scored first, from the position where the left one will end
    rw [wordsLeft, ← Nat.add_assoc]
    exact ih below found
  | case5 => cases found

/-- The latent tree branches as the tree does, with words under preterminals. -/
inductive Shaped : Tree → LatentTree α → Prop where
  | word {label original : String} {state : Nat} {word : String} {scores : NodeScores α} :
      Shaped (.node label [.leaf original]) (.preterminal state word scores)
  | single {label : String} {state : Nat} {scores : NodeScores α} {source : Tree}
      {child : LatentTree α} (below : Shaped source child) :
      Shaped (.node label [source]) (.unary state scores child)
  | pair {label : String} {state : Nat} {scores : NodeScores α} {first second : Tree}
      {left right : LatentTree α} (leftBelow : Shaped first left)
      (rightBelow : Shaped second right) :
      Shaped (.node label [first, second]) (.binary state scores left right)

namespace Shaped

variable {source : Tree} {other : LatentTree α}

theorem of_annotates {vocabulary : Vocabulary} (annotates : Annotates vocabulary source tree) :
    Shaped source tree := by
  induction annotates with
  | word => exact .word
  | single _ _ ih => exact .single ih
  | pair _ _ _ leftIh rightIh => exact .pair leftIh rightIh

theorem of_skeleton (shaped : Shaped source tree) (same : other.skeleton = tree.skeleton) :
    Shaped source other := by
  induction shaped generalizing other with
  | word =>
    obtain ⟨_, rfl⟩ := skeleton_eq_preterminal same
    exact .word
  | single _ ih =>
    obtain ⟨_, _, rfl, below⟩ := skeleton_eq_unary same
    exact .single (ih below)
  | pair _ _ leftIh rightIh =>
    obtain ⟨_, _, _, rfl, leftBelow, rightBelow⟩ := skeleton_eq_binary same
    exact .pair (leftIh leftBelow) (rightIh rightBelow)

theorem mapWords (shaped : Shaped source tree) (f : String → Nat → String) (position : Nat) :
    Shaped source (tree.mapWords f position) := by
  induction shaped generalizing position with
  | word => exact .word
  | single _ ih => exact .single (ih _)
  | pair _ _ leftIh rightIh => exact .pair (leftIh _) (rightIh _)

theorem wordCount_eq (shaped : Shaped source tree) : tree.wordCount = source.words.length := by
  induction shaped with
  | word => rfl
  | single _ ih => rw [Tree.words_node _ (List.cons_ne_nil _ _), wordCount, ih]; simp
  | pair _ _ leftIh rightIh =>
    rw [Tree.words_node _ (List.cons_ne_nil _ _), wordCount, leftIh, rightIh]
    simp

/-- At the place of a preterminal, the tree has a word, and as many words to its left. -/
theorem place (shaped : Shaped source tree)
    (found : tree.at? path = some (preterminal state word scores)) :
    tree.wordsLeft path = (source.wordsLeft path).length ∧
      ∃ label original, source.at? path = some (.node label [.leaf original]) := by
  fun_induction at? tree path generalizing source with
  | case1 tree =>
    obtain rfl := Option.some.inj found
    cases shaped with
    | @word label original => exact ⟨rfl, label, original, rfl⟩
  | case2 _ _ child path ih =>
    cases shaped with
    | single below =>
      obtain ⟨same, standing⟩ := ih below found
      exact ⟨by simp [wordsLeft, Tree.wordsLeft, same], standing⟩
  | case3 _ _ left right path ih =>
    cases shaped with
    | pair leftBelow _ =>
      obtain ⟨same, standing⟩ := ih leftBelow found
      exact ⟨by simp [wordsLeft, Tree.wordsLeft, same], standing⟩
  | case4 _ _ left right path ih =>
    cases shaped with
    | pair leftBelow rightBelow =>
      obtain ⟨same, standing⟩ := ih rightBelow found
      exact ⟨by simp [wordsLeft, Tree.wordsLeft, same, leftBelow.wordCount_eq], standing⟩
  | case5 => cases found

end Shaped

/-- What becomes of the latent trees of a tree: they get fresh scores for any numbers of substates,
are scored by any models, and have their words replaced. -/
inductive Grown [Scalar α] (source : Tree) : LatentTree α → Prop where
  | built {substates : List Nat} {vocabulary : Vocabulary} {tree : LatentTree α}
      (success : ofTree substates vocabulary source = .ok tree) : Grown source tree
  | resized {substates : List Nat} {tree next : LatentTree α} (before : Grown source tree)
      (success : tree.resize substates = .ok next) : Grown source next
  | inside {model : Model α} {tree next : LatentTree α} (before : Grown source tree)
      (success : tree.computeInside model = .ok next) : Grown source next
  | both {model : Model α} {tree next : LatentTree α} (before : Grown source tree)
      (success : tree.computeBoth model = .ok next) : Grown source next
  | reworded {tree : LatentTree α} (before : Grown source tree) (f : String → Nat → String) :
      Grown source (tree.mapWords f 0)

theorem Grown.shaped [Scalar α] {source : Tree} (grown : Grown source tree) :
    Shaped source tree := by
  induction grown with
  | built success => exact .of_annotates (ofTree_annotates success)
  | resized _ success ih => exact ih.of_skeleton (resize_skeleton success)
  | inside _ success ih => exact ih.of_skeleton (computeInside_skeleton success)
  | both _ success ih => exact ih.of_skeleton (computeBoth_skeleton success)
  | reworded _ f ih => exact ih.mapWords f 0

end LatentTree

namespace Lexicon

variable {α : Type} [Scalar α]

/-- As `sophisticatedScores`, for a word with the given signature. -/
def sophisticatedScoresUnder (lexicon : Lexicon α) (sign word : String) (state size : Nat) :
    Except Fault (List α) := do
  let tables := lexicon.tables
  if tables.totalTokens ≤ 0 then return ← fill size 0
  let wordTotal := (tables.wordTotals.get? word).getD 0
  let signatureTotal := (tables.unseenSignatureTotals.get? sign).getD 0
  let wordCounts := (← fetch tables.wordCounts state).get? word
  let signatureCounts := (← fetch tables.unseenSignatureCounts state).get? sign
  let wordShare :=
    if 0 < wordTotal then wordTotal / tables.totalTokens else 1 / (tables.totalTokens + 1)
  tabulate size fun s => do
    let tagShare := (← fetch (← fetch tables.tagCounts state) s) / tables.totalTokens
    if tagShare ≤ 0 then return 0
    let tagUnseen ←
      if 0 < tables.unseenTotal then do
        pure ((← fetch (← fetch tables.unseenTagCounts state) s) / tables.unseenTotal)
      else pure tagShare
    let givenSignature := tagGivenSignature lexicon.settings (← countOf signatureCounts s)
      signatureTotal tagUnseen
    let givenWord := tagGivenWord lexicon.settings (← countOf wordCounts s) wordTotal givenSignature
    return givenWord * wordShare / tagShare

/-- As `simpleScores`, for a word with the given signature. -/
def simpleScoresUnder (lexicon : Lexicon α) (sign word : String) (state size : Nat) :
    Except Fault (List α) := do
  let tables := lexicon.tables
  let key := if tables.wordTotals.contains word then word else sign
  let types : α := ((tables.wordTotals.length : Nat) : α)
  let smoothing := lexicon.settings.wordSmoothing
  let counts := (← fetch tables.wordCounts state).get? key
  tabulate size fun s => do
    let tagTotal ← fetch (← fetch tables.tagCounts state) s
    if tagTotal ≤ 0 then return 0
    return ((← countOf counts s) + smoothing / (types + 1)) / (tagTotal + smoothing)

/-- The score of a word for which a given signature is consulted. -/
def scoreUnder (lexicon : Lexicon α) (sign word : String) (state : Nat) :
    Except Fault (List α) := do
  let size ← fetch lexicon.substates state
  let scores ← match lexicon.settings.kind with
    | .sophisticated => lexicon.sophisticatedScoresUnder sign word state size
    | .simple => lexicon.simpleScoresUnder sign word state size
  let smoothed := lexicon.smoothing.smooth (← fetch lexicon.ancestry state) scores
  return smoothed.map fun score => if score < lexicon.settings.threshold then 0 else score

/-- The signature that is consulted is the one of the word at its position. -/
theorem score_eq_scoreUnder (lexicon : Lexicon α) (word : String) (state position : Nat) :
    lexicon.score word state position =
      lexicon.scoreUnder (signature word position) word state := rfl

end Lexicon

namespace EmissionCounts

variable {α : Type} [Scalar α] {policy : UnseenPolicy α} {state : Nat} {word : String}
  {weights : List α} {before after : EmissionCounts α} {k : Nat}

/-- A word of a category was counted under a signature, and under no other one. -/
structure SignsUnder (sign : String) (state : Nat) (weights : List α)
    (before after : EmissionTables α) : Prop where
  total : after.unseenSignatureTotals.get? sign =
    some ((before.unseenSignatureTotals.get? sign).getD 0 + 1)
  otherTotals : ∀ name ≠ sign,
    after.unseenSignatureTotals.get? name = before.unseenSignatureTotals.get? name
  counts : ∃ old new, before.unseenSignatureCounts[state]? = some old ∧
    after.unseenSignatureCounts = before.unseenSignatureCounts.set state new ∧
    new.get? sign = some (Scalar.addInto
      ((old.get? sign).getD (List.replicate weights.length 0)) weights) ∧
    ∀ name ≠ sign, new.get? name = old.get? name

/-- No word was counted under any signature. -/
structure KeepsSigns (before after : EmissionTables α) : Prop where
  totals : after.unseenSignatureTotals = before.unseenSignatureTotals
  counts : after.unseenSignatureCounts = before.unseenSignatureCounts

/-- A token of a word was added for a position of its sentence. If it counts towards the unseen
statistics, then under the signature of the word at this position. -/
structure AddedAt (policy : UnseenPolicy α) (state : Nat) (word : String) (k : Nat)
    (weights : List α) (before after : EmissionCounts α) : Prop where
  added : before.add policy state word k weights = .ok after
  signs : policy.active = true → (before.tables.wordTotals.get? word).getD 0 < policy.rare →
    SignsUnder (signature word k) state weights before.tables after.tables
  keeps : ¬(policy.active = true ∧ (before.tables.wordTotals.get? word).getD 0 < policy.rare) →
    KeepsSigns before.tables after.tables

theorem addedAt_of_add (added : before.add policy state word k weights = .ok after) :
    AddedAt policy state word k weights before after := by
  refine ⟨added, fun active fresh => ?_, fun passed => ?_⟩
  · obtain ⟨words, -, added⟩ := bind_eq_ok_iff.mp added
    obtain ⟨tags, -, added⟩ := bind_eq_ok_iff.mp added
    -- `fresh` is about the totals from before the token, though it is tested after they are updated
    simp only [active, fresh, decide_true, Bool.and_self, if_true] at added
    obtain ⟨signatures, found, added⟩ := bind_eq_ok_iff.mp added
    obtain ⟨unseen, -, done⟩ := bind_eq_ok_iff.mp added
    obtain rfl := Except.ok.inj done
    refine ⟨?_, fun name other => ?_, signatures, _, fetch_eq_ok_iff.mp found, rfl, ?_,
      fun name other => ?_⟩
    · exact (NameTable.get?_alter _ _ _ _ _).trans (if_pos rfl)
    · exact (NameTable.get?_alter _ _ _ _ _).trans (if_neg other)
    · exact (NameTable.get?_alter _ _ _ _ _).trans (if_pos rfl)
    · exact (NameTable.get?_alter _ _ _ _ _).trans (if_neg other)
  · obtain ⟨words, -, added⟩ := bind_eq_ok_iff.mp added
    obtain ⟨tags, -, added⟩ := bind_eq_ok_iff.mp added
    have skipped : ¬(policy.active &&
        decide ((before.tables.wordTotals.get? word).getD 0 < policy.rare)) = true := by
      simpa using passed
    rw [if_neg skipped] at added
    obtain rfl := Except.ok.inj added
    exact ⟨rfl, rfl⟩

/-- How the substates of a token are weighted before there is noise: as the reference scores the word
at its position, or equally without one. -/
def tokenWeights (reference : Option (Lexicon α)) (state : Nat) (word : String)
    (position size : Nat) : Except Fault (List α) :=
  match reference with
  | some lexicon => lexicon.score word state position
  | none => .ok (List.replicate size 1)

/-- What is counted for a token of a tree without scores. -/
def countToken {γ : Type} [Draws γ α] (policy : UnseenPolicy α) (randomness : α)
    (reference : Option (Lexicon α)) (current : EmissionCounts α × γ)
    (entry : LatentTree α × Nat) : Except Fault (EmissionCounts α × γ) :=
  match entry with
  | (.preterminal state word _, position) => do
    let size ← fetch current.1.substates state
    let weights ← tokenWeights reference state word position size
    let (weights, stream) := perturbAll randomness weights current.2
    let counts ← current.1.add policy state word position (proportions size weights)
    return (counts, stream)
  | _ => .ok current

theorem countTokens_eq_foldlM {γ : Type} [Draws γ α] (randomness : α)
    (reference : Option (Lexicon α)) (tokens : List (LatentTree α × Nat))
    (counts : EmissionCounts α) (stream : γ) :
    countTokens policy randomness reference tokens counts stream =
      tokens.foldlM (countToken policy randomness reference) (counts, stream) := by
  induction tokens generalizing counts stream with
  | nil => rfl
  | cons token rest ih =>
    obtain ⟨tree, position⟩ := token
    cases tree with
    | preterminal state word scores =>
      cases reference <;>
        simp only [countTokens, List.foldlM_cons, countToken, tokenWeights, bind_assoc, ok_bind,
          pure_bind, ih]
    | unary | binary => exact ih counts stream

/-- A token of a word was added for a position of its sentence, with the weights for this position
and some noise. -/
def WeightedAt {γ : Type} [Draws γ α] (policy : UnseenPolicy α) (randomness : α)
    (reference : Option (Lexicon α)) (state : Nat) (word : String) (k : Nat)
    (before after : EmissionCounts α × γ) : Prop :=
  ∃ size weights, fetch before.1.substates state = .ok size ∧
    tokenWeights reference state word k size = .ok weights ∧
    after.2 = (perturbAll randomness weights before.2).2 ∧
    AddedAt policy state word k (proportions size (perturbAll randomness weights before.2).1)
      before.1 after.1

theorem weightedAt_of_countToken {γ : Type} [Draws γ α] {randomness : α}
    {reference : Option (Lexicon α)} {before after : EmissionCounts α × γ} {scores : NodeScores α}
    (counted : countToken policy randomness reference before (.preterminal state word scores, k) =
      .ok after) :
    WeightedAt policy randomness reference state word k before after := by
  obtain ⟨size, sized, counted⟩ := bind_eq_ok_iff.mp counted
  obtain ⟨weights, weighted, counted⟩ := bind_eq_ok_iff.mp counted
  obtain ⟨result, added, done⟩ := bind_eq_ok_iff.mp counted
  obtain rfl := Except.ok.inj done
  exact ⟨size, weights, sized, weighted, rfl, addedAt_of_add added⟩

end EmissionCounts

theorem exists_history {σ ι : Type} {step : σ → ι → Except Fault σ} {items : List ι}
    {start final : σ} (done : items.foldlM step start = .ok final) :
    ∃ history : Nat → σ, history 0 = start ∧ history items.length = final ∧
      ∀ (k : Nat) item, items[k]? = some item → step (history k) item = .ok (history (k + 1)) := by
  induction items generalizing start with
  | nil => exact ⟨fun _ => start, rfl, Except.ok.inj done, fun _ _ found => nomatch found⟩
  | cons item rest ih =>
    rw [List.foldlM_cons] at done
    obtain ⟨next, first, later⟩ := bind_eq_ok_iff.mp done
    obtain ⟨history, begins, ends, each⟩ := ih later
    refine ⟨fun k => k.casesOn start history, rfl, ends, ?_⟩
    rintro (_ | k) other found
    · obtain rfl := Option.some.inj found
      exact first.trans (congrArg Except.ok begins.symm)
    · exact each k other found

namespace LatentTree

variable {α : Type} {source : Tree} {tree : LatentTree α}

/-- A loop over the words of a tree, each of which leads from one state to the next by a step for its
position: the number of words to its left in the source. -/
def InTurn {σ : Type} (source : Tree) (tree : LatentTree α)
    (step : Nat → String → NodeScores α → Nat → σ → σ → Prop) (start final : σ) : Prop :=
  ∃ history : Nat → σ, history 0 = start ∧ history source.words.length = final ∧
    ∀ path state word scores, tree.at? path = some (.preterminal state word scores) →
      step state word scores (source.wordsLeft path).length
        (history (source.wordsLeft path).length) (history ((source.wordsLeft path).length + 1))

theorem Shaped.inTurn (shaped : Shaped source tree) {σ : Type}
    {f : σ → LatentTree α × Nat → Except Fault σ} {start final : σ}
    {step : Nat → String → NodeScores α → Nat → σ → σ → Prop}
    (done : tree.preterminals.zipIdx.foldlM f start = .ok final)
    (steps : ∀ state word scores k before after,
      f before (.preterminal state word scores, k) = .ok after →
        step state word scores k before after) :
    InTurn source tree step start final := by
  obtain ⟨history, begins, ends, each⟩ := exists_history done
  refine ⟨history, begins, ?_, fun path state word scores found => ?_⟩
  · rwa [← shaped.wordCount_eq, ← length_preterminals, ← List.length_zipIdx]
  · obtain ⟨same, -⟩ := shaped.place found
    rw [← same]
    refine steps _ _ _ _ _ _ (each _ _ ?_)
    rw [List.getElem?_zipIdx, preterminals_getElem? found, Option.map_some, Nat.zero_add]

variable [Scalar α]

/-- A word stands at a position in the table of the tree, and is scored and replaced for it. -/
structure PlacedAt (tree : LatentTree α) (path : List Nat) (state : Nat) (word : String)
    (scores : NodeScores α) (k : Nat) : Prop where
  table : ∃ i : Nat, tree.nodes[i]? = some ⟨state, some word, [], scores⟩ ∧
    wordsAhead tree.nodes i = k
  scored : ∀ model scored, tree.computeInside model = .ok scored → ∃ values,
    model.lexicon.score word state k = .ok values ∧
      model.lexicon.scoreUnder (signature word k) word state = .ok values ∧
      scored.at? path = some
        (.preterminal state word { scores with inside := ScaledVector.rescale ⟨values, 0⟩ })
  reworded : ∀ (forest : Forest α) (t : Nat) f threshold, forest.trees[t]? = some tree →
    ∃ new, (forest.replaceRare f threshold).trees[t]? = some new ∧
      new.at? path = some (.preterminal state
        (if forest.tokenCount word < threshold then f word k else word) scores)

theorem Shaped.placedAt (shaped : Shaped source tree) {path : List Nat} {state : Nat}
    {word : String} {scores : NodeScores α}
    (found : tree.at? path = some (.preterminal state word scores)) :
    tree.PlacedAt path state word scores (source.wordsLeft path).length := by
  obtain ⟨same, -⟩ := shaped.place found
  rw [← same]
  refine ⟨exists_position found 0, fun model scored success => ?_,
    fun forest t f threshold here => ?_⟩
  · obtain ⟨-, -, filled⟩ := bind_eq_ok_iff.mp success
    obtain ⟨values, asked, there⟩ := fillInside_at? filled found
    rw [Nat.zero_add] at asked
    have consulted := (model.lexicon.score_eq_scoreUnder word state _).symm.trans asked
    exact ⟨values, asked, consulted, there⟩
  · refine ⟨tree.mapWords (forest.rewording f threshold) 0, ?_, ?_⟩
    · rw [Forest.replaceRare_eq, List.getElem?_map, here, Option.map_some]
    · rw [mapWords_at? _ found, Nat.zero_add]
      rfl

/-- Whatever has become of the latent tree of a source, the places of its words are those of the
words of the source. Each of them is scored, and replaced where it is rare, for the number of words
to its left in the source. For the same number it is counted in a scored tree and in one without
scores: under the signature that is consulted for its score, if it counts as unseen. -/
theorem positions_agree {γ : Type} [Draws γ α] (grown : Grown source tree) :
    (∀ k < source.words.length, ∃ path state word scores,
      tree.at? path = some (.preterminal state word scores) ∧ (source.wordsLeft path).length = k) ∧
    (∀ path state word scores, tree.at? path = some (.preterminal state word scores) →
      (∃ original right, source.words = source.wordsLeft path ++ original :: right) ∧
      tree.PlacedAt path state word scores (source.wordsLeft path).length) ∧
    (∀ (counts next : EmissionCounts α) policy mass, tree.mass = .ok mass → ¬mass ≤ 0 →
      counts.countScored policy tree = .ok next →
      InTurn source tree (fun state word scores k => EmissionCounts.AddedAt policy state word k
        ((preterminal state word scores).posteriorIn mass tree.inside.scale)) counts next) ∧
    ∀ (counts : EmissionCounts α) (stream : γ) next policy randomness reference,
      counts.countUnscored policy randomness reference tree stream = .ok next →
      InTurn source tree (fun state word _ k =>
        EmissionCounts.WeightedAt policy randomness reference state word k) (counts, stream) next := by
  have shaped := grown.shaped
  refine ⟨fun k below => ?_, fun path state word scores found => ⟨?_, shaped.placedAt found⟩,
    fun counts next policy mass known positive done => ?_,
    fun counts stream next policy randomness reference done => ?_⟩
  · obtain ⟨path, state, word, scores, found, left⟩ :=
      exists_place (shaped.wordCount_eq ▸ below : k < tree.wordCount)
    exact ⟨path, state, word, scores, found, (shaped.place found).1 ▸ left⟩
  · obtain ⟨-, label, original, standing⟩ := shaped.place found
    obtain ⟨right, split⟩ := Tree.words_at? standing
    exact ⟨original, right, by rw [split, List.append_assoc]; rfl⟩
  · rw [EmissionCounts.countScored, known, ok_bind, if_neg positive] at done
    exact shaped.inTurn done fun _ _ _ _ _ _ added => EmissionCounts.addedAt_of_add added
  · rw [EmissionCounts.countUnscored, EmissionCounts.countTokens_eq_foldlM] at done
    exact shaped.inTurn done fun _ _ _ _ _ _ counted => EmissionCounts.weightedAt_of_countToken counted

/-- The sentence *Rain Rain*. -/
def rainSource : Tree :=
  .node "ROOT" [.node "S" [.node "S" [.leaf "Rain"], .node "S" [.leaf "Rain"]]]

/-- The capital of the second word is not that of a first word. -/
theorem rainSource_positions :
    let vocabulary := (Vocabulary.empty "ROOT").internAll ["ROOT", "S"]
    let policy : UnseenPolicy Rat := ⟨true, 2⟩
    rainSource.wordsLeft [0, 1] = ["Rain"] ∧
      ∃ (tree : LatentTree Rat) (counts : EmissionCounts Rat) (next : EmissionCounts Rat × Unit),
        ofTree [1, 2] vocabulary rainSource = .ok tree ∧
        EmissionCounts.start [1, 2] 0 ⟨.simple, 0, 0, 0, 0⟩ = .ok counts ∧
        counts.countUnscored policy 0 none tree () = .ok next ∧
        next.1.tables.unseenSignatureTotals = [("UNK-INITC", 1), ("UNK-CAP", 1)] ∧
        tree.PlacedAt [0, 1] 1 "Rain" (blankScores 2) 1 ∧
        ∃ before after : EmissionCounts Rat × Unit,
          EmissionCounts.WeightedAt policy 0 none 1 "Rain" 1 before after := by
  intro vocabulary policy
  have left : rainSource.wordsLeft [0, 1] = ["Rain"] := rfl
  obtain ⟨tree, built⟩ : ∃ tree : LatentTree Rat, ofTree [1, 2] vocabulary rainSource = .ok tree :=
    ⟨_, rfl⟩
  obtain ⟨counts, started⟩ : ∃ counts : EmissionCounts Rat,
      EmissionCounts.start [1, 2] 0 ⟨.simple, 0, 0, 0, 0⟩ = .ok counts := ⟨_, rfl⟩
  have totals : (do
      let tree ← ofTree [1, 2] vocabulary rainSource
      let counts ← EmissionCounts.start [1, 2] 0 ⟨.simple, 0, 0, 0, 0⟩
      let next ← counts.countUnscored policy 0 none tree ()
      return next.1.tables.unseenSignatureTotals) =
        (.ok [("UNK-INITC", 1), ("UNK-CAP", 1)] : Except Fault (NameTable Rat)) := by
    decide +kernel
  rw [built, ok_bind, started, ok_bind] at totals
  obtain ⟨next, counted, same⟩ := bind_eq_ok_iff.mp totals
  obtain ⟨-, placed, -, inTurn⟩ := positions_agree (γ := Unit) (.built built)
  have found : tree.at? [0, 1] = some (preterminal 1 "Rain" (blankScores 2)) := by
    obtain rfl := Except.ok.inj built
    rfl
  obtain ⟨history, -, -, each⟩ := inTurn counts () next policy 0 none counted
  have stands := (placed _ _ _ _ found).2
  have second := each _ _ _ _ found
  rw [left] at stands second
  exact ⟨left, tree, counts, next, built, started, counted, Except.ok.inj same, stands, _, _, second⟩

end LatentTree

end LatentGrammar
