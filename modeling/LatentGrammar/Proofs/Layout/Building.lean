import LatentGrammar.Proofs.Consistency.Run
import LatentGrammar.Proofs.Layout.Table
import LatentGrammar.Proofs.Scoring.Overwriting

/-! Latent trees as they are built. One table grows at its end while a tree is gone through, and the
positions of children are entered later; it comes to the layout of the latent tree. Trees with fresh
scores are the trees that would be built for these, however often they were scored before. -/

namespace LatentGrammar

namespace LatentTree

variable {α : Type} [Scalar α]

mutual

/-- Puts the nodes of a tree at the end of a table: the one at the top, which has no children yet,
and behind it those of the trees below; then the top gets the positions of its children. -/
def layOut (substates : List Nat) (vocabulary : Vocabulary) :
    Tree → List (Node α) → Except Fault (Nat × List (Node α))
  | .node label children, table => do
    let state ← vocabulary.id label
    let count ← countOf substates state label
    match children with
    | [.node word []] =>
      return (table.length, table ++ [⟨state, some word, [], ← NodeScores.zeros count⟩])
    | _ =>
      if children.isEmpty || 2 < children.length then
        .error (.malformedTree (.notBinary label children.length))
      else if children.any Tree.isLeaf then .error (.malformedTree (.mixed label))
      else do
        let begun := table ++ [⟨state, none, [], ← NodeScores.zeros count⟩]
        let (positions, filled) ← layOutAll substates vocabulary children begun
        return (table.length, filled.modify table.length ({ · with children := positions }))

def layOutAll (substates : List Nat) (vocabulary : Vocabulary) :
    List Tree → List (Node α) → Except Fault (List Nat × List (Node α))
  | [], table => return ([], table)
  | tree :: rest, table => do
    let (position, table) ← layOut substates vocabulary tree table
    let (positions, table) ← layOutAll substates vocabulary rest table
    return (position :: positions, table)

end

omit [Scalar α] in
theorem modify_append_cons (table : List (Node α)) (node : Node α) (rest : List (Node α))
    (f : Node α → Node α) :
    (table ++ node :: rest).modify table.length f = table ++ f node :: rest := by
  induction table with
  | nil => rfl
  | cons first table ih => simpa using ih

/-- A growing table comes to the layout of the latent tree, behind what was in it before. -/
theorem layOut_agree (substates : List Nat) (vocabulary : Vocabulary) (source : Tree)
    (table : List (Node α)) :
    Agree (fun placed tree => placed = (table.length, table ++ tree.nodesFrom table.length))
      (layOut substates vocabulary source table) (ofTree substates vocabulary source) := by
  induction source using ofTree.induct generalizing table with
  | case1 label children ih =>
    rw [layOut, ofTree]
    refine .bind_same fun state => .bind_same fun count => ?_
    -- Without children, over one word or one constituent, over two nodes or more.
    rcases children with _ | ⟨⟨first, _ | ⟨inner, more⟩⟩, _ | ⟨second, _ | ⟨third, rest⟩⟩⟩
    · exact .error _
    · exact .bind_same fun scores => .ok rfl
    · exact .error _
    · exact .error _
    · refine .bind_same fun scores => ?_
      simp only [layOutAll, bind_assoc, pure_bind]
      refine (ih _).bind ?_
      rintro _ child rfl
      exact .ok (by simp [nodesFrom, modify_append_cons])
    · obtain ⟨second, _ | ⟨inner', more'⟩⟩ := second
      · exact .error _
      refine .bind_same fun scores => ?_
      simp only [layOutAll, bind_assoc, pure_bind]
      refine (ih.1 _).bind ?_
      rintro _ left rfl
      refine (ih.2 _).bind ?_
      rintro _ right rfl
      have behind : table.length + (left.size + 1) = table.length + 1 + left.size := by omega
      exact .ok (by simp [nodesFrom, modify_append_cons, behind])
    · exact .error _

/-- A latent tree with the categories and words of a tree: words alone under preterminals, and other
constituents by ones or twos. -/
inductive Annotates (vocabulary : Vocabulary) : Tree → LatentTree α → Prop where
  | word {label word : String} {state : Nat} {scores : NodeScores α}
      (known : vocabulary.id label = .ok state) :
      Annotates vocabulary (.node label [.leaf word]) (.preterminal state word scores)
  | single {label : String} {state : Nat} {scores : NodeScores α} {source : Tree}
      {child : LatentTree α} (known : vocabulary.id label = .ok state)
      (below : Annotates vocabulary source child) :
      Annotates vocabulary (.node label [source]) (.unary state scores child)
  | pair {label : String} {state : Nat} {scores : NodeScores α} {first second : Tree}
      {left right : LatentTree α} (known : vocabulary.id label = .ok state)
      (leftBelow : Annotates vocabulary first left)
      (rightBelow : Annotates vocabulary second right) :
      Annotates vocabulary (.node label [first, second]) (.binary state scores left right)

section Annotated

variable {substates : List Nat} {vocabulary : Vocabulary} {source first second : Tree}
  {tree other : LatentTree α} {label : String}

theorem ofTree_annotates (built : ofTree substates vocabulary source = .ok tree) :
    Annotates vocabulary source tree := by
  induction source using ofTree.induct generalizing tree with
  | case1 label children ih =>
    rw [ofTree] at built
    obtain ⟨state, known, built⟩ := bind_eq_ok_iff.mp built
    obtain ⟨count, -, built⟩ := bind_eq_ok_iff.mp built
    -- Without children, over one word or one constituent, over two nodes or more.
    rcases children with _ | ⟨⟨word, _ | ⟨inner, more⟩⟩, _ | ⟨second, _ | ⟨third, rest⟩⟩⟩
    · cases built
    · obtain ⟨scores, -, done⟩ := bind_eq_ok_iff.mp built
      obtain rfl := Except.ok.inj done
      exact .word known
    · cases built
    · cases built
    · obtain ⟨scores, -, built⟩ := bind_eq_ok_iff.mp built
      obtain ⟨child, below, done⟩ := bind_eq_ok_iff.mp built
      obtain rfl := Except.ok.inj done
      exact .single known (ih below)
    · change (if _ then _ else _) = _ at built
      split at built
      · cases built
      · obtain ⟨scores, -, built⟩ := bind_eq_ok_iff.mp built
        obtain ⟨left, leftBelow, built⟩ := bind_eq_ok_iff.mp built
        obtain ⟨right, rightBelow, done⟩ := bind_eq_ok_iff.mp built
        obtain rfl := Except.ok.inj done
        exact .pair known (ih.1 leftBelow) (ih.2 rightBelow)
    · cases built

omit [Scalar α] in
theorem Annotates.constituent (annotates : Annotates vocabulary source tree) :
    source.isLeaf = false := by
  cases annotates <;> rfl

theorem ofTree_single (constituent : first.isLeaf = false) :
    ofTree (α := α) substates vocabulary (.node label [first]) = do
      let state ← vocabulary.id label
      let count ← countOf substates state label
      return .unary state (← NodeScores.zeros count) (← ofTree substates vocabulary first) := by
  obtain ⟨inner, _ | ⟨top, rest⟩⟩ := first
  · cases constituent
  · rw [ofTree]

theorem ofTree_pair (one : first.isLeaf = false) (two : second.isLeaf = false) :
    ofTree (α := α) substates vocabulary (.node label [first, second]) = do
      let state ← vocabulary.id label
      let count ← countOf substates state label
      return .binary state (← NodeScores.zeros count) (← ofTree substates vocabulary first)
        (← ofTree substates vocabulary second) := by
  obtain ⟨left, _ | ⟨top, rest⟩⟩ := first
  · cases one
  obtain ⟨right, _ | ⟨top', rest'⟩⟩ := second
  · cases two
  rw [ofTree]
  rfl

omit [Scalar α] in
/-- With the labels of its categories, an annotated tree is the tree that it annotates. -/
theorem Annotates.spell_eq (annotates : Annotates vocabulary source tree)
    (labelled : ∀ label id, vocabulary.id label = .ok id → vocabulary.label? id = some label) :
    tree.spell vocabulary = some source := by
  induction annotates with
  | word known => simp [spell, labelled _ _ known]
  | single known _ ih => simp [spell, labelled _ _ known, ih]
  | pair known _ _ leftIh rightIh => simp [spell, labelled _ _ known, leftIh, rightIh]

theorem Annotates.resize_eq (annotates : Annotates vocabulary source tree)
    (covered : ∀ label id, vocabulary.id label = .ok id → id < substates.length)
    (same : other.skeleton = tree.skeleton) :
    other.resize substates = ofTree substates vocabulary source := by
  have counted {label : String} {state : Nat} (known : vocabulary.id label = .ok state) :
      countOf substates state label = fetch substates state := by
    have found := List.getElem?_eq_getElem (covered label state known)
    rw [countOf_eq_ok_iff.mpr found, fetch_eq_ok_iff.mpr found]
  induction annotates generalizing other with
  | word known =>
    obtain ⟨_, rfl⟩ := skeleton_eq_preterminal same
    rw [ofTree, known, ok_bind, counted known]
    rfl
  | single known below ih =>
    obtain ⟨_, inner, rfl, alike⟩ := skeleton_eq_unary same
    rw [ofTree_single below.constituent, known, ok_bind, counted known, resize, ih alike]
  | pair known leftBelow rightBelow leftIh rightIh =>
    obtain ⟨_, innerLeft, innerRight, rfl, leftAlike, rightAlike⟩ := skeleton_eq_binary same
    rw [ofTree_pair leftBelow.constituent rightBelow.constituent, known, ok_bind, counted known,
      resize, leftIh leftAlike, rightIh rightAlike]

end Annotated

end LatentTree

theorem Forest.resize_eq_ofTrees {α : Type} [Scalar α] {vocabulary : Vocabulary}
    {substates old : List Nat} {sources : List Tree} {forest used : Forest α}
    (covered : ∀ label id, vocabulary.id label = .ok id → id < substates.length)
    (built : ofTrees sources old vocabulary = .ok forest)
    (same : List.Forall₂ (fun tree used => used.skeleton = tree.skeleton) forest.trees used.trees) :
    used.resize substates = ofTrees sources substates vocabulary := by
  obtain ⟨trees, each, done⟩ := bind_eq_ok_iff.mp built
  obtain rfl := Except.ok.inj done
  have made := forall₂_of_mapM each
  suffices mapped : used.trees.mapM (LatentTree.resize substates) =
      sources.mapM (LatentTree.ofTree substates vocabulary) by
    rw [resize, ofTrees, mapped]
  clear built each done
  dsimp only at same
  generalize used.trees = others at same
  induction made generalizing others with
  | nil =>
    cases same
    rfl
  | cons built _ ih =>
    cases same with
    | cons here later =>
      rw [List.mapM_cons, List.mapM_cons, (LatentTree.ofTree_annotates built).resize_eq covered here,
        ih _ later]

namespace LatentTree

variable {α : Type} [Scalar α]

/-- With numbered labels, the table of a latent tree encodes the tree that it was built from; it is
the table that grows when the nodes are laid out one by one, behind whatever was in it before. A
forest that was built for some numbers of substates, and scored any number of times by any models,
becomes with fresh scores for other numbers the forest that is built for these. -/
theorem nodes_encode {vocabulary : Vocabulary} {rootLabel : String} {labels : List String}
    (numbered : vocabulary = (Vocabulary.empty rootLabel).internAll labels) :
    (∀ substates source (tree : LatentTree α), ofTree substates vocabulary source = .ok tree →
      Encodes vocabulary tree.nodes source) ∧
    (∀ substates source (table : List (Node α)), layOut substates vocabulary source table =
      (ofTree substates vocabulary source).map
        fun tree => (table.length, table ++ tree.nodesFrom table.length)) ∧
    ∀ sources old (forest used : Forest α), Forest.ofTrees sources old vocabulary = .ok forest →
      List.Forall₂ (Worn fun _ => True) forest.trees used.trees →
      ∀ substates, vocabulary.size ≤ substates.length →
        used.resize substates = Forest.ofTrees sources substates vocabulary := by
  have indexed : vocabulary.Indexed :=
    numbered ▸ (Vocabulary.indexed_empty rootLabel).internAll labels
  have distinct : vocabulary.labels.Nodup := by
    obtain ⟨added, grown, once, -⟩ :=
      (Vocabulary.indexed_empty rootLabel).internAll_labels List.nodup_nil labels
    rw [numbered, grown]
    exact once
  refine ⟨fun substates source tree built => encodes_nodes ((ofTree_annotates built).spell_eq ?_),
    fun substates source table => (layOut_agree substates vocabulary source table).eq_map,
    fun sources old forest used built worn substates covering =>
      Forest.resize_eq_ofTrees ?_ built (worn.imp fun _ _ scored => scored.skeleton_eq)⟩
  · intro label id known
    exact (indexed.id?_eq_some_iff distinct).mp (id_eq_ok_iff.mp known)
  · intro label id known
    exact Nat.lt_of_lt_of_le (indexed.id? (id_eq_ok_iff.mp known)) covering

/-- A tree of four nodes, scored under a small model and then widened. -/
theorem sampleTree_encoded :
    let vocabulary := (Vocabulary.empty "ROOT").internAll ["ROOT", "S"]
    let source : Tree :=
      .node "ROOT" [.node "S" [.node "S" [.leaf "rain"], .node "S" [.leaf "fell"]]]
    sampleTree.nodes.map Node.children = [[1], [2, 3], [], []] ∧
      Encodes vocabulary sampleTree.nodes source ∧
      ∃ scored, sampleTree.computeBoth sampleModel = .ok scored ∧
        Forest.resize ⟨[scored], [1, 2]⟩ [1, 3] = Forest.ofTrees [source] [1, 3] vocabulary := by
  intro vocabulary source
  have numbered : vocabulary = (Vocabulary.empty "ROOT").internAll ["ROOT", "S"] := rfl
  obtain ⟨encodes, -, rebuilt⟩ := nodes_encode (α := Rat) numbered
  have built : ofTree [1, 2] vocabulary source = .ok sampleTree := rfl
  have corpus : Forest.ofTrees [source] [1, 2] vocabulary = .ok ⟨[sampleTree], [1, 2]⟩ := by
    rw [Forest.ofTrees, List.mapM_cons, built]
    rfl
  obtain ⟨scored, success, -⟩ := delivers_never_iff.mp
    (Training.computeBoth_fits Training.Run.sampleModel_consistent sampleTree_fits)
  refine ⟨rfl, encodes [1, 2] source sampleTree built, scored, success, ?_⟩
  exact rebuilt [source] [1, 2] _ ⟨[scored], [1, 2]⟩ corpus
    (.cons (.both .unscored trivial success) .nil) [1, 3] (by decide)

end LatentTree

end LatentGrammar
