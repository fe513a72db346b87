import LatentGrammar.Proofs.Counting.Positions
import LatentGrammar.Proofs.Schedule.Frames
import LatentGrammar.Proofs.Scoring.Forgetting

/-! Scoring in place. The table of a tree is scored node by node, upwards and then downwards, and
what was written before a fault stays written; a sweep over many tables ends with the first fault.
A tree that is refused is not written to at all. -/

namespace LatentGrammar.LatentTree

variable {α : Type}

/-- Why the scoring of a table ends early. -/
inductive TableFault where
  | wordless
  | crowded
  | model (fault : Fault)

def ofModel {β : Type} (result : Except Fault β) : Except TableFault β := result.mapError .model

/-- A table as a pass leaves it, and the fault that has ended the pass, if one has. -/
structure Passed (α : Type) where
  table : List (Node α)
  fault : Option TableFault

/-- Goes to some positions of a table, one after the other, and writes at each of them. -/
def passOver (write : List (Node α) → Nat → Except TableFault (List (Node α))) :
    List Nat → List (Node α) → Passed α
  | [], table => ⟨table, none⟩
  | i :: rest, table =>
    match write table i with
    | .error fault => ⟨table, some fault⟩
    | .ok table => passOver write rest table

def Node.substates (node : Node α) : Nat := node.scores.inside.values.length

def Node.setInside (inside : ScaledVector α) (node : Node α) : Node α :=
  { node with scores := { node.scores with inside } }

def Node.setOutside (outside : ScaledVector α) (node : Node α) : Node α :=
  { node with scores := { node.scores with outside } }

/-- A pass comes to the table of the scored tree, or ends with the fault that the tree has. -/
inductive Mirrors (place : LatentTree α → List (Node α)) :
    Except Fault (LatentTree α) → Passed α → Prop where
  | done (scored : LatentTree α) : Mirrors place (.ok scored) ⟨place scored, none⟩
  | ended (fault : Fault) (table : List (Node α)) :
    Mirrors place (.error fault) ⟨table, some (.model fault)⟩

variable {write : List (Node α) → Nat → Except TableFault (List (Node α))}
  {place further : LatentTree α → List (Node α)} {result : Except Fault (LatentTree α)}
  {table before after start : List (Node α)} {tree : LatentTree α} {n : Nat}

theorem passOver_append (first second : List Nat) (table : List (Node α)) :
    passOver write (first ++ second) table = match passOver write first table with
      | ⟨table, some fault⟩ => ⟨table, some fault⟩
      | ⟨table, none⟩ => passOver write second table := by
  induction first generalizing table with
  | nil => rfl
  | cons i rest ih =>
    rw [List.cons_append, passOver, passOver]
    cases write table i with
    | error fault => rfl
    | ok table => exact ih table

theorem Mirrors.bind {next : LatentTree α → Except Fault (LatentTree α)} {first second : List Nat}
    (one : Mirrors place result (passOver write first table))
    (two : ∀ scored, result = .ok scored →
      Mirrors further (next scored) (passOver write second (place scored))) :
    Mirrors further (result >>= next) (passOver write (first ++ second) table) := by
  rw [passOver_append]
  generalize passOver write first table = passed at one
  cases one with
  | done scored => exact two scored rfl
  | ended fault table => exact .ended fault table

theorem Mirrors.map {passed : Passed α} (mirrors : Mirrors place result passed)
    (make : LatentTree α → LatentTree α) (laid : ∀ scored, place scored = further (make scored)) :
    Mirrors further (result >>= fun scored => .ok (make scored)) passed := by
  cases mirrors with
  | done scored =>
    rw [laid]
    exact .done (make scored)
  | ended fault table => exact .ended fault table

theorem Mirrors.writing {β : Type} {values : Except Fault β} {lay : β → List (Node α)}
    {next : β → Except Fault (LatentTree α)} {i : Nat} {rest : List Nat}
    (written : write table i = ofModel (values.map lay))
    (others : ∀ value, Mirrors place (next value) (passOver write rest (lay value))) :
    Mirrors place (values >>= next) (passOver write (i :: rest) table) := by
  rw [passOver, written]
  cases values with
  | error fault => exact .ended fault table
  | ok value => exact others value

theorem fetch_at (node : Node α) (length : before.length = n) :
    fetch (before ++ node :: after) n = .ok node := by
  rw [fetch_eq_ok_iff, ← length, List.getElem?_append_right (Nat.le_refl _), Nat.sub_self,
    List.getElem?_cons_zero]

theorem fetch_top (tree : LatentTree α) (length : before.length = n) (after : List (Node α)) :
    ∃ node, fetch (before ++ (tree.nodesFrom n ++ after)) n = .ok node ∧
      node.state = tree.state ∧ node.scores = tree.scores := by
  cases tree <;> exact ⟨_, fetch_at _ length, rfl, rfl⟩

theorem length_top (node : Node α) (length : before.length = n) :
    (before ++ [node]).length = n + 1 := by
  rw [List.length_append, length, List.length_singleton]

theorem length_left (node : Node α) (left : LatentTree α) (length : before.length = n) :
    (before ++ node :: left.nodesFrom (n + 1)).length = n + 1 + left.size := by
  rw [List.length_append, length, List.length_cons, length_nodesFrom]
  omega

theorem modify_at (node : Node α) (f : Node α → Node α) (length : before.length = n) :
    (before ++ node :: after).modify n f = before ++ f node :: after := by
  rw [← length, modify_append_cons]

theorem ofModel_map {β σ : Type} (result : Except Fault β) (f : β → σ) :
    (ofModel result >>= fun value => pure (f value)) = ofModel (result.map f) := by
  cases result <;> rfl

theorem ofModel_map_both {β σ τ : Type} (one : Except Fault β) (two : Except Fault σ)
    (f : β × σ → τ) :
    (ofModel one >>= fun first => ofModel two >>= fun second => pure (f (first, second))) =
      ofModel ((do return (← one, ← two)).map f) := by
  cases one <;> cases two <;> rfl

/-- The words of a table ahead of the nodes of a tree that stands at a place. -/
def WordsCounted (start : List (Node α)) (n position : Nat) (tree : LatentTree α) : Prop :=
  ∀ i < tree.size, wordsAhead start (n + i) = position + wordsAhead (tree.nodesFrom n) i

section WordsCounted

variable {state position : Nat} {scores : NodeScores α} {child left right : LatentTree α}

theorem WordsCounted.below (counts : WordsCounted start n position (unary state scores child)) :
    WordsCounted start (n + 1) position child := by
  intro i inside
  have counted := counts (i + 1) (Nat.succ_lt_succ inside)
  rw [nodesFrom, wordsAhead_cons] at counted
  rw [Nat.add_assoc, Nat.add_comm 1 i, counted]
  simp

theorem WordsCounted.belowLeft
    (counts : WordsCounted start n position (binary state scores left right)) :
    WordsCounted start (n + 1) position left := by
  intro i inside
  have counted := counts (i + 1) (by rw [size]; omega)
  rw [nodesFrom, wordsAhead_cons,
    wordsAhead_append_left (by rw [length_nodesFrom]; exact inside.le)] at counted
  rw [Nat.add_assoc, Nat.add_comm 1 i, counted]
  simp

theorem WordsCounted.belowRight
    (counts : WordsCounted start n position (binary state scores left right)) :
    WordsCounted start (n + 1 + left.size) (position + left.wordCount) right := by
  intro i inside
  have counted := counts (left.size + i + 1) (by rw [size]; omega)
  have behind := wordsAhead_append_right (left.nodesFrom (n + 1))
    (right.nodesFrom (n + 1 + left.size)) i
  rw [length_nodesFrom, countP_nodesFrom] at behind
  rw [nodesFrom, wordsAhead_cons, behind] at counted
  rw [show n + 1 + left.size + i = n + (left.size + i + 1) by omega, counted]
  simp [Nat.add_assoc]

end WordsCounted

theorem size_eq_of_skeleton {first second : LatentTree α}
    (same : first.skeleton = second.skeleton) :
    first.size = second.size := by
  rw [← length_subtrees_eq_size, length_subtrees_of_skeleton same, length_subtrees_eq_size]

/-- Scores on the way down are at the top of a tree before the tree is scored outside. -/
def crowned (tree : LatentTree α) (outside : ScaledVector α) : LatentTree α :=
  match tree with
  | preterminal state word scores => .preterminal state word { scores with outside }
  | unary state scores child => .unary state { scores with outside } child
  | binary state scores left right => .binary state { scores with outside } left right

theorem size_crowned (tree : LatentTree α) (outside : ScaledVector α) :
    (tree.crowned outside).size = tree.size := by
  cases tree <;> rfl

theorem modify_top (tree : LatentTree α) (outside : ScaledVector α) (length : before.length = n)
    (after : List (Node α)) :
    (before ++ (tree.nodesFrom n ++ after)).modify n (Node.setOutside outside) =
      before ++ ((tree.crowned outside).nodesFrom n ++ after) := by
  cases tree <;> exact modify_at _ _ length

/-- Checks the sizes of all nodes in the order of the table. -/
def checkTable (substates : List Nat) (table : List (Node α)) : Except Fault Unit :=
  table.forM fun node =>
    let model := (substates[node.state]?).getD 0
    if node.substates == model then .ok ()
    else .error (.substateMismatch node.state node.substates model)

theorem checkTable_nodesFrom (substates : List Nat) (tree : LatentTree α) (n : Nat) :
    checkTable substates (tree.nodesFrom n) = tree.checkSubstates substates := by
  unfold checkTable checkSubstates
  simp only [List.forM_eq_forM]
  induction tree generalizing n with
  | preterminal => rfl
  | unary _ _ _ ih =>
    rw [nodesFrom, subtrees, List.forM_cons, List.forM_cons, ih]
    rfl
  | binary _ _ _ _ leftIh rightIh =>
    rw [nodesFrom, subtrees, List.forM_cons, List.forM_cons, List.forM_append, List.forM_append,
      leftIh, rightIh]
    rfl

variable [Scalar α] {model : Model α}

/-- The inside scores of a node, from those of its children in the table. -/
def insideOf (model : Model α) (table : List (Node α)) (position : Nat) (node : Node α) :
    Except TableFault (ScaledVector α) :=
  match node.children with
  | [] => do
    let some word := node.word | throw .wordless
    return ⟨← ofModel (model.lexicon.score word node.state position), 0⟩
  | [only] => do
    let child ← ofModel (fetch table only)
    let values ← ofModel (applyRule (model.grammar.rule? (.unary node.state child.state))
      node.substates (·.insideUnary node.substates child.scores.inside.values))
    return ⟨values, child.scores.inside.scale⟩
  | [first, second] => do
    let left ← ofModel (fetch table first)
    let right ← ofModel (fetch table second)
    let values ← ofModel (applyRule (model.grammar.rule? (.binary node.state left.state right.state))
      node.substates
      (·.insideBinary node.substates left.scores.inside.values right.scores.inside.values))
    return ⟨values, left.scores.inside.scale + right.scores.inside.scale⟩
  | _ => throw .crowded

/-- Writes the inside scores of a node. Words are counted in the table as it was at the start. -/
def writeInside (model : Model α) (start table : List (Node α)) (i : Nat) :
    Except TableFault (List (Node α)) := do
  let node ← ofModel (fetch table i)
  let vector ← insideOf model table (wordsAhead start i) node
  return table.modify i (Node.setInside (ScaledVector.rescale vector))

/-- Writes the outside scores of a node's children. -/
def writeOutside (grammar : Grammar α) (table : List (Node α)) (i : Nat) :
    Except TableFault (List (Node α)) := do
  let node ← ofModel (fetch table i)
  let outside := node.scores.outside
  match node.children with
  | [only] =>
    let child ← ofModel (fetch table only)
    let values ← ofModel (applyRule (grammar.rule? (.unary node.state child.state))
      child.substates (·.outsideUnary child.substates outside.values))
    return table.modify only (Node.setOutside (ScaledVector.rescale ⟨values, outside.scale⟩))
  | [first, second] =>
    let left ← ofModel (fetch table first)
    let right ← ofModel (fetch table second)
    let rule := grammar.rule? (.binary node.state left.state right.state)
    let inside := left.scores.inside
    let inside' := right.scores.inside
    let values ← ofModel (applyRule rule left.substates
      (·.outsideLeft outside.values inside.values inside'.values))
    let values' ← ofModel (applyRule rule right.substates
      (·.outsideRight outside.values inside.values inside'.values))
    let table := table.modify first
      (Node.setOutside (ScaledVector.rescale ⟨values, outside.scale + inside'.scale⟩))
    return table.modify second
      (Node.setOutside (ScaledVector.rescale ⟨values', outside.scale + inside.scale⟩))
  | _ => return table

/-- Scores a table inside, from its last node to its first. -/
def insideInPlace (model : Model α) (table : List (Node α)) : Passed α :=
  match checkTable model.substates table with
  | .error fault => ⟨table, some (.model fault)⟩
  | .ok () => passOver (writeInside model table) (List.range' 0 table.length).reverse table

/-- Scores a table inside, and then outside from its first node to its last. -/
def bothInPlace (model : Model α) (table : List (Node α)) : Passed α :=
  match insideInPlace model table with
  | ⟨table, some fault⟩ => ⟨table, some fault⟩
  | ⟨table, none⟩ =>
    let ones (node : Node α) : Node α :=
      node.setOutside ⟨node.scores.outside.values.map fun _ => 1, 0⟩
    passOver (writeOutside model.grammar) (List.range' 0 table.length) (table.modify 0 ones)

theorem insideOf_preterminal (state position : Nat) (word : String) (scores : NodeScores α) :
    insideOf model table position ⟨state, some word, [], scores⟩ =
      ofModel ((model.lexicon.score word state position).map (⟨·, 0⟩)) :=
  ofModel_map _ _

theorem insideOf_unary {only state position : Nat} {top : Node α} (scores : NodeScores α)
    (found : fetch table only = .ok top) :
    insideOf model table position ⟨state, none, [only], scores⟩ =
      ofModel ((applyRule (model.grammar.rule? (.unary state top.state)) scores.inside.values.length
        (·.insideUnary scores.inside.values.length top.scores.inside.values)).map
          (⟨·, top.scores.inside.scale⟩)) := by
  rw [← ofModel_map]
  unfold insideOf
  dsimp only
  rw [found]
  rfl

theorem insideOf_binary {first second state position : Nat} {left right : Node α}
    (scores : NodeScores α) (foundLeft : fetch table first = .ok left)
    (foundRight : fetch table second = .ok right) :
    insideOf model table position ⟨state, none, [first, second], scores⟩ =
      ofModel ((applyRule (model.grammar.rule? (.binary state left.state right.state))
        scores.inside.values.length (·.insideBinary scores.inside.values.length
          left.scores.inside.values right.scores.inside.values)).map
            (⟨·, left.scores.inside.scale + right.scores.inside.scale⟩)) := by
  rw [← ofModel_map]
  unfold insideOf
  dsimp only
  rw [foundLeft, foundRight]
  rfl

/-- The scores of one node are written. -/
theorem Mirrors.inside {node : Node α} {values : Except Fault (List α)} {scale : Int}
    (make : ScaledVector α → LatentTree α) (length : before.length = n)
    (computed : insideOf model (before ++ node :: after) (wordsAhead start n) node =
      ofModel (values.map (⟨·, scale⟩)))
    (laid : ∀ inside, before ++ node.setInside inside :: after = place (make inside)) :
    Mirrors place (values >>= fun values => .ok (make (ScaledVector.rescale ⟨values, scale⟩)))
      (passOver (writeInside model start) [n] (before ++ node :: after)) := by
  have written : writeInside model start (before ++ node :: after) n =
      ofModel (values.map fun values =>
        before ++ node.setInside (ScaledVector.rescale ⟨values, scale⟩) :: after) := by
    rw [writeInside, fetch_at _ length]
    show insideOf _ _ _ _ >>= _ = _
    rw [computed]
    cases values with
    | error fault => rfl
    | ok values => exact congrArg Except.ok (modify_at _ _ length)
  refine .writing written fun values => ?_
  rw [laid]
  exact .done _

theorem fillInside_mirrored (model : Model α) {position : Nat} (length : before.length = n)
    (counts : WordsCounted start n position tree) (after : List (Node α)) :
    Mirrors (fun scored => before ++ (scored.nodesFrom n ++ after)) (tree.fillInside model position)
      (passOver (writeInside model start) (List.range' n tree.size).reverse
        (before ++ (tree.nodesFrom n ++ after))) := by
  induction tree generalizing before after n position with
  | preterminal state word scores =>
    have here : wordsAhead start n = position := counts 0 Nat.zero_lt_one
    refine .inside (fun inside => .preterminal state word { scores with inside }) length ?_
      fun _ => rfl
    rw [here]
    exact insideOf_preterminal state position word scores
  | unary state scores child ih =>
    have lengthChild := length_top ⟨state, none, [n + 1], scores⟩ length
    have below := ih lengthChild counts.below after
    simp only [List.append_assoc, List.singleton_append] at below
    rw [fillInside, size, List.range'_succ, List.reverse_cons]
    refine below.bind fun scored filled => ?_
    obtain ⟨top, found, isState, isScores⟩ := fetch_top scored lengthChild after
    rw [List.append_assoc, List.singleton_append] at found
    refine .inside (fun inside => .unary state { scores with inside } scored) length ?_ fun _ => rfl
    rw [insideOf_unary scores found, isState, isScores]
    rfl
  | binary state scores left right leftIh rightIh =>
    let node : Node α := ⟨state, none, [n + 1, n + 1 + left.size], scores⟩
    have lengthLeft := length_top node length
    rw [fillInside, size, List.range'_succ, ← List.range'_append_1, List.reverse_cons,
      List.reverse_append, List.append_assoc]
    have onRight := rightIh (length_left node left length) counts.belowRight after
    simp only [List.append_assoc, List.cons_append] at onRight
    rw [nodesFrom, List.cons_append, List.append_assoc]
    refine onRight.bind fun right' _ => ?_
    have onLeft := leftIh lengthLeft counts.belowLeft
      (right'.nodesFrom (n + 1 + left.size) ++ after)
    simp only [List.append_assoc, List.singleton_append] at onLeft
    refine onLeft.bind fun left' filled => ?_
    have same : left'.size = left.size := size_eq_of_skeleton (fillInside_skeleton filled)
    obtain ⟨first, foundLeft, leftState, leftScores⟩ :=
      fetch_top left' lengthLeft (right'.nodesFrom (n + 1 + left.size) ++ after)
    obtain ⟨second, foundRight, rightState, rightScores⟩ :=
      fetch_top right' (same ▸ length_left node left' length) after
    simp only [List.append_assoc, List.nil_append, List.cons_append] at foundLeft foundRight
    refine .inside (fun inside => .binary state { scores with inside } left' right') length ?_ ?_
    · refine (insideOf_binary scores foundLeft foundRight).trans ?_
      rw [leftState, leftScores, rightState, rightScores]
      rfl
    · intro inside
      simp only [nodesFrom, same, List.cons_append, List.append_assoc]
      rfl

theorem writeOutside_unary {grammar : Grammar α} {state : Nat} (scores : NodeScores α)
    (child : LatentTree α) (length : before.length = n) (after : List (Node α)) :
    writeOutside grammar
        (before ++ ⟨state, none, [n + 1], scores⟩ :: (child.nodesFrom (n + 1) ++ after)) n =
      ofModel ((applyRule (grammar.rule? (.unary state child.state)) child.substates
        (·.outsideUnary child.substates scores.outside.values)).map fun values =>
          before ++ ⟨state, none, [n + 1], scores⟩ ::
            ((child.crowned (ScaledVector.rescale ⟨values, scores.outside.scale⟩)).nodesFrom (n + 1)
              ++ after)) := by
  have lengthChild := length_top ⟨state, none, [n + 1], scores⟩ length
  obtain ⟨top, found, isState, isScores⟩ := fetch_top child lengthChild after
  have entered (outside : ScaledVector α) := modify_top child outside lengthChild after
  simp only [List.append_assoc, List.singleton_append] at found entered
  simp only [← entered]
  rw [← ofModel_map]
  unfold writeOutside
  rw [fetch_at _ length]
  show (ofModel (fetch _ _) >>= _) = _
  rw [found]
  have size : top.substates = child.substates := by rw [Node.substates, isScores]; rfl
  show (ofModel (applyRule (grammar.rule? (.unary state top.state)) top.substates
    (·.outsideUnary top.substates scores.outside.values)) >>= fun _ => _) = _
  rw [isState, size]

/-- Outside scores of two children. -/
def outsideBoth (grammar : Grammar α) (state : Nat) (outside : ScaledVector α)
    (left right : LatentTree α) : Except Fault (List α × List α) := do
  let rule := grammar.rule? (.binary state left.state right.state)
  let leftValues ← applyRule rule left.substates
    (·.outsideLeft outside.values left.inside.values right.inside.values)
  let rightValues ← applyRule rule right.substates
    (·.outsideRight outside.values left.inside.values right.inside.values)
  return (leftValues, rightValues)

theorem writeOutside_binary {grammar : Grammar α} {state : Nat} {node : Node α}
    {scores : NodeScores α} {left right : LatentTree α}
    (isNode : node = ⟨state, none, [n + 1, n + 1 + left.size], scores⟩)
    (length : before.length = n) (after : List (Node α)) :
    writeOutside grammar (before ++ node ::
        (left.nodesFrom (n + 1) ++ (right.nodesFrom (n + 1 + left.size) ++ after))) n =
      ofModel ((outsideBoth grammar state scores.outside left right).map
        fun (leftValues, rightValues) =>
          before ++ node ::
            ((left.crowned (ScaledVector.rescale
                ⟨leftValues, scores.outside.scale + right.inside.scale⟩)).nodesFrom (n + 1) ++
              ((right.crowned (ScaledVector.rescale
                ⟨rightValues, scores.outside.scale + left.inside.scale⟩)).nodesFrom
                  (n + 1 + left.size) ++ after))) := by
  have lengthLeft := length_top node length
  obtain ⟨first, foundLeft, leftState, leftScores⟩ :=
    fetch_top left lengthLeft (right.nodesFrom (n + 1 + left.size) ++ after)
  obtain ⟨second, foundRight, rightState, rightScores⟩ :=
    fetch_top right (length_left node left length) after
  have leftEntered (outside : ScaledVector α) := modify_top left outside lengthLeft
    (right.nodesFrom (n + 1 + left.size) ++ after)
  have rightEntered (one outside : ScaledVector α) := modify_top right outside
    (size_crowned left one ▸ length_left node (left.crowned one) length) after
  simp only [List.append_assoc, List.nil_append, List.cons_append] at foundLeft foundRight
  simp only [List.append_assoc, List.nil_append, List.cons_append] at leftEntered rightEntered
  simp only [← rightEntered, ← leftEntered]
  rw [writeOutside, fetch_at _ length]
  subst isNode
  show (ofModel (fetch _ _) >>= _) = _
  rw [foundLeft]
  show (ofModel (fetch _ _) >>= _) = _
  rw [foundRight]
  have leftSize : first.substates = left.substates := by rw [Node.substates, leftScores]; rfl
  have rightSize : second.substates = right.substates := by rw [Node.substates, rightScores]; rfl
  refine Eq.trans ?_ (ofModel_map_both _ _ _)
  show (ofModel (applyRule (grammar.rule? (.binary state first.state second.state)) first.substates
    (·.outsideLeft scores.outside.values first.scores.inside.values second.scores.inside.values))
      >>= fun _ => ofModel (applyRule (grammar.rule? (.binary state first.state second.state))
        second.substates (·.outsideRight scores.outside.values first.scores.inside.values
          second.scores.inside.values)) >>= fun _ => _) = _
  rw [leftState, rightState, leftSize, rightSize, leftScores, rightScores]
  rfl

theorem fillOutside_binary (grammar : Grammar α) (outside : ScaledVector α) (state : Nat)
    (scores : NodeScores α) (left right : LatentTree α) :
    (binary state scores left right).fillOutside grammar outside =
      outsideBoth grammar state outside left right >>= fun (leftValues, rightValues) => do
          let left' ← left.fillOutside grammar
            (ScaledVector.rescale ⟨leftValues, outside.scale + right.inside.scale⟩)
          let right' ← right.fillOutside grammar
            (ScaledVector.rescale ⟨rightValues, outside.scale + left.inside.scale⟩)
          return .binary state { scores with outside } left' right' := by
  simp only [fillOutside, outsideBoth, bind_assoc, pure_bind]

theorem fillOutside_mirrored (grammar : Grammar α) (tree : LatentTree α) (outside : ScaledVector α)
    (length : before.length = n) (after : List (Node α)) :
    Mirrors (fun scored => before ++ (scored.nodesFrom n ++ after))
      (tree.fillOutside grammar outside)
      (passOver (writeOutside grammar) (List.range' n tree.size)
        (before ++ ((tree.crowned outside).nodesFrom n ++ after))) := by
  induction tree generalizing before after n outside with
  | preterminal state word scores =>
    have unchanged : writeOutside grammar
        (before ++ ⟨state, some word, [], { scores with outside }⟩ :: after) n =
          .ok (before ++ ⟨state, some word, [], { scores with outside }⟩ :: after) := by
      rw [writeOutside, fetch_at _ length]
      rfl
    show Mirrors _ _ (passOver _ [n] (before ++ _ :: after))
    rw [passOver, unchanged]
    exact .done (preterminal state word { scores with outside })
  | unary state scores child ih =>
    have lengthChild := length_top ⟨state, none, [n + 1], { scores with outside }⟩ length
    rw [fillOutside, size, List.range'_succ]
    refine .writing (writeOutside_unary { scores with outside } child length after) fun values => ?_
    have below := ih (ScaledVector.rescale ⟨values, outside.scale⟩) lengthChild after
    simp only [List.append_assoc, List.singleton_append] at below
    exact below.map (fun scored => .unary state { scores with outside } scored) fun _ => rfl
  | binary state scores left right leftIh rightIh =>
    let node : Node α := ⟨state, none, [n + 1, n + 1 + left.size], { scores with outside }⟩
    rw [fillOutside_binary, size, List.range'_succ, ← List.range'_append_1]
    refine .writing ((congrArg (writeOutside grammar · n) ?_).trans
      (writeOutside_binary (rfl : node = _) length after)) fun both => ?_
    · rw [crowned, nodesFrom, List.cons_append, List.append_assoc]
    obtain ⟨leftValues, rightValues⟩ := both
    have onLeft := leftIh (ScaledVector.rescale ⟨leftValues, outside.scale + right.inside.scale⟩)
      (length_top node length) ((right.crowned (ScaledVector.rescale
        ⟨rightValues, outside.scale + left.inside.scale⟩)).nodesFrom (n + 1 + left.size) ++ after)
    simp only [List.append_assoc, List.singleton_append] at onLeft
    refine onLeft.bind fun left' filled => ?_
    have same : left'.size = left.size := size_eq_of_skeleton (fillOutside_skeleton filled)
    have onRight := rightIh (ScaledVector.rescale ⟨rightValues, outside.scale + left.inside.scale⟩)
      (same ▸ length_left node left' length) after
    simp only [List.append_assoc, List.cons_append] at onRight
    refine onRight.map (fun right' => .binary state { scores with outside } left' right')
      fun _ => ?_
    simp only [nodesFrom, same, List.cons_append, List.append_assoc]
    rfl

theorem computeInside_mirrored (model : Model α) (tree : LatentTree α) :
    Mirrors nodes (tree.computeInside model) (insideInPlace model tree.nodes) := by
  unfold insideInPlace computeInside
  rw [nodes, checkTable_nodesFrom]
  cases tree.checkSubstates model.substates with
  | error fault => exact .ended fault _
  | ok _ =>
    have counts : WordsCounted (tree.nodesFrom 0) 0 0 tree := fun i _ => by
      rw [Nat.zero_add, Nat.zero_add]
    have filled := fillInside_mirrored model List.length_nil counts []
    simp only [List.nil_append, List.append_nil] at filled
    rw [length_nodesFrom]
    exact filled

theorem computeBoth_mirrored (model : Model α) (tree : LatentTree α) :
    Mirrors nodes (tree.computeBoth model) (bothInPlace model tree.nodes) := by
  unfold bothInPlace computeBoth
  have inside := computeInside_mirrored model tree
  generalize insideInPlace model tree.nodes = passed at inside
  generalize tree.computeInside model = result at inside
  cases inside with
  | ended fault table => exact .ended fault table
  | done scored =>
    have filled := fillOutside_mirrored model.grammar scored scored.topOutside List.length_nil []
    simp only [List.nil_append, List.append_nil] at filled
    have ones : (scored.nodesFrom 0).modify 0 (fun node =>
        node.setOutside ⟨node.scores.outside.values.map fun _ => 1, 0⟩) =
          (scored.crowned scored.topOutside).nodesFrom 0 := by
      cases scored <;> rfl
    show Mirrors _ _ (passOver _ (List.range' 0 (scored.nodesFrom 0).length) _)
    rw [length_nodesFrom, nodes, ones]
    exact filled

theorem insideInPlace_refused {node : LatentTree α}
    (found : tree.subtrees.find? (Disagrees model) = some node) :
    insideInPlace model tree.nodes = ⟨tree.nodes, some (.model (mismatch model node))⟩ := by
  unfold insideInPlace
  rw [nodes, checkTable_nodesFrom, checkSubstates_eq_find?, found]

theorem bothInPlace_refused {node : LatentTree α}
    (found : tree.subtrees.find? (Disagrees model) = some node) :
    bothInPlace model tree.nodes = ⟨tree.nodes, some (.model (mismatch model node))⟩ := by
  rw [bothInPlace, insideInPlace_refused found]

/-- Scoring in place comes to the table of the scored tree, or ends with the same fault. A tree of
other sizes than the model's has the table that it had; no table of a tree is malformed. -/
theorem scores_in_place (model : Model α) (tree : LatentTree α) :
    Mirrors nodes (tree.computeInside model) (insideInPlace model tree.nodes) ∧
    Mirrors nodes (tree.computeBoth model) (bothInPlace model tree.nodes) ∧
    ∀ node, tree.subtrees.find? (Disagrees model) = some node →
      insideInPlace model tree.nodes = ⟨tree.nodes, some (.model (mismatch model node))⟩ ∧
        bothInPlace model tree.nodes = ⟨tree.nodes, some (.model (mismatch model node))⟩ :=
  ⟨computeInside_mirrored model tree, computeBoth_mirrored model tree,
    fun _ found => ⟨insideInPlace_refused found, bothInPlace_refused found⟩⟩

end LatentGrammar.LatentTree

namespace LatentGrammar.Forest

open LatentTree

variable {α β : Type}

/-- Tables as a sweep leaves them, what it has come to, and the fault that has ended it, if one
has. -/
structure Swept (α β : Type) where
  tables : List (List (Node α))
  result : β
  fault : Option TableFault

/-- Scores tables one after the other, and takes something from each. -/
def sweepInPlace (score : List (Node α) → Passed α)
    (take : Nat → List (Node α) → β → Except Fault β) :
    Nat → List (List (Node α)) → β → Swept α β
  | _, [], result => ⟨[], result, none⟩
  | index, table :: rest, result =>
    match score table with
    | ⟨table, some fault⟩ => ⟨table :: rest, result, some fault⟩
    | ⟨table, none⟩ =>
      match take index table result with
      | .error fault => ⟨table :: rest, result, some (.model fault)⟩
      | .ok result =>
        let later := sweepInPlace score take (index + 1) rest result
        { later with tables := table :: later.tables }

/-- A sweep in place leaves the tables of the trees that the other sweep leaves. Where it ends
early, one table may have been written to in part, unless its tree is refused by the model. -/
inductive Shadows (model : Model α) : Swept α β → Sweep α β → Prop where
  | done (trees : List (LatentTree α)) (result : β) :
    Shadows model ⟨trees.map nodes, result, none⟩ ⟨trees, result, none⟩
  | ended (scored rest : List (LatentTree α)) (tree : LatentTree α) (table : List (Node α))
      (result : β) (fault : Fault)
      (spared : ∀ node, tree.subtrees.find? (Disagrees model) = some node → table = tree.nodes) :
    Shadows model ⟨scored.map nodes ++ table :: rest.map nodes, result, some (.model fault)⟩
      ⟨scored ++ tree :: rest, result, some fault⟩

variable {model : Model α} {score : List (Node α) → Passed α}
  {scoreTree : LatentTree α → Except Fault (LatentTree α)}

theorem Shadows.cons {swept : Swept α β} {sweep : Sweep α β} (shadows : Shadows model swept sweep)
    (tree : LatentTree α) :
    Shadows model { swept with tables := tree.nodes :: swept.tables }
      { sweep with trees := tree :: sweep.trees } := by
  cases shadows with
  | done trees result => exact .done (tree :: trees) result
  | ended scored rest other table result fault spared =>
    exact .ended (tree :: scored) rest other table result fault spared

theorem sweepInPlace_shadows (mirrors : ∀ tree, Mirrors nodes (scoreTree tree) (score tree.nodes))
    (spares : ∀ (tree node : LatentTree α), tree.subtrees.find? (Disagrees model) = some node →
      (score tree.nodes).table = tree.nodes)
    (take : Nat → List (Node α) → β → Except Fault β) (index : Nat)
    (trees : List (LatentTree α)) (result : β) :
    Shadows model (sweepInPlace score take index (trees.map nodes) result)
      (sweep (fun index tree result => do
        let tree ← scoreTree tree
        return (tree, ← take index tree.nodes result)) index trees result) := by
  induction trees generalizing index result with
  | nil => exact .done [] result
  | cons tree rest ih =>
    rw [List.map_cons, sweepInPlace, sweep]
    have spared := spares tree
    have mirrored := mirrors tree
    generalize score tree.nodes = passed at mirrored spared
    generalize scoreTree tree = scored at mirrored
    cases mirrored with
    | ended fault table =>
      exact .ended [] rest tree table result fault spared
    | done scored =>
      simp only [ok_bind]
      cases take index scored.nodes result with
      | error fault => exact .ended [] rest tree scored.nodes result fault spared
      | ok next => exact (ih (index + 1) next).cons scored

/-- Trees may be swept in place, whatever is taken from their tables. -/
theorem sweeps_in_place [Scalar α] (model : Model α)
    (take : Nat → List (Node α) → β → Except Fault β) (index : Nat)
    (trees : List (LatentTree α)) (result : β) :
    Shadows model (sweepInPlace (insideInPlace model) take index (trees.map nodes) result)
      (sweep (fun index tree result => do
        let tree ← tree.computeInside model
        return (tree, ← take index tree.nodes result)) index trees result) ∧
    Shadows model (sweepInPlace (bothInPlace model) take index (trees.map nodes) result)
      (sweep (fun index tree result => do
        let tree ← tree.computeBoth model
        return (tree, ← take index tree.nodes result)) index trees result) := by
  constructor
  · refine sweepInPlace_shadows (computeInside_mirrored model) (fun tree node found => ?_)
      take index trees result
    rw [insideInPlace_refused found]
  · refine sweepInPlace_shadows (computeBoth_mirrored model) (fun tree node found => ?_)
      take index trees result
    rw [bothInPlace_refused found]

end LatentGrammar.Forest

namespace LatentGrammar.Training

open LatentTree (Node hasLikelihood nodes insideInPlace)

variable {α : Type} [Scalar α]

/-- Adds a scored table to an outcome. The likelihood stands at the first node. -/
def Outcome.addTable (_ : Nat) (table : List (Node α)) (outcome : Outcome α) :
    Except Fault (Outcome α) := do
  let top ← fetch table 0
  let inside := top.scores.inside
  let mass ← fetch inside.values 0
  if hasLikelihood mass then
    return outcome.addScored (Scalar.log mass + (inside.scale : α) * (scaleUnit : α))
  else return outcome.addUnparsable

theorem evaluateTree_eq (model : Model α) (index : Nat) (tree : LatentTree α)
    (outcome : Outcome α) :
    evaluateTree model tree outcome = (do
      let tree ← tree.computeInside model
      return (tree, ← Outcome.addTable index tree.nodes outcome)) := by
  unfold evaluateTree
  congr 1
  funext scored
  obtain ⟨top, found, -, isScores⟩ := LatentTree.fetch_top scored List.length_nil []
  rw [List.nil_append, List.append_nil] at found
  simp only [Outcome.addTable, nodes, found, ok_bind, isScores, LatentTree.logLikelihood,
    LatentTree.mass, LatentTree.inside]
  cases fetch scored.scores.inside.values 0 with
  | error fault => rfl
  | ok mass =>
    simp only [ok_bind]
    split <;> rfl

/-- Evaluation comes to the same in place, tree by tree. -/
theorem evaluate_in_place (model : Model α) (forest : Forest α) :
    Forest.Shadows model
      (Forest.sweepInPlace (insideInPlace model) Outcome.addTable 0 (forest.trees.map nodes) .start)
      (Forest.sweep (fun _ => evaluateTree model) 0 forest.trees .start) := by
  have stepwise : (fun _ => evaluateTree model) = fun index tree outcome => (do
      let tree ← tree.computeInside model
      return (tree, ← Outcome.addTable index tree.nodes outcome)) := by
    funext index tree outcome
    exact evaluateTree_eq model index tree outcome
  rw [stepwise]
  exact (Forest.sweeps_in_place model Outcome.addTable 0 forest.trees .start).1

end LatentGrammar.Training
