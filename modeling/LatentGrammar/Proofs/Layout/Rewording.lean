import LatentGrammar.Proofs.Layout.Table
import LatentGrammar.Proofs.Reestimation.Siblings

namespace LatentGrammar

namespace LatentTree

variable {α : Type} {f : String → Nat → String}

/-- The node with another word, if it has one. -/
def Node.reword (f : String → String) (node : Node α) : Node α :=
  { node with word := node.word.map f }

@[simp] theorem Node.isSome_word_reword (f : String → String) (node : Node α) :
    (node.reword f).word.isSome = node.word.isSome :=
  Option.isSome_map

/-- The number of words in front of a position of a table. -/
def wordsAhead (table : List (Node α)) (i : Nat) : Nat :=
  (table.take i).countP (·.word.isSome)

theorem wordsAhead_cons (node : Node α) (table : List (Node α)) (i : Nat) :
    wordsAhead (node :: table) (i + 1) =
      (if node.word.isSome then 1 else 0) + wordsAhead table i := by
  rw [wordsAhead, List.take_succ_cons, List.countP_cons, Nat.add_comm, wordsAhead]

theorem wordsAhead_congr {table other : List (Node α)}
    (same : table.map (·.word.isSome) = other.map (·.word.isSome)) (i : Nat) :
    wordsAhead table i = wordsAhead other i := by
  have counted (nodes : List (Node α)) :
      wordsAhead nodes i = ((nodes.map (·.word.isSome)).take i).countP id := by
    rw [← List.map_take, List.countP_map]
    rfl
  rw [counted, counted, same]

theorem filterMap_nodesFrom (tree : LatentTree α) (start : Nat) :
    (tree.nodesFrom start).filterMap Node.word = tree.words := by
  induction tree generalizing start with
  | preterminal => rfl
  | unary _ _ _ ih => rw [nodesFrom, List.filterMap_cons_none rfl, ih, words]
  | binary _ _ _ _ leftIh rightIh =>
    rw [nodesFrom, List.filterMap_cons_none rfl, List.filterMap_append, leftIh, rightIh, words]

theorem countP_nodesFrom (tree : LatentTree α) (start : Nat) :
    (tree.nodesFrom start).countP (·.word.isSome) = tree.wordCount := by
  induction tree generalizing start with
  | preterminal => rfl
  | unary _ _ _ ih => rw [nodesFrom, List.countP_cons_of_neg Bool.false_ne_true, ih, wordCount]
  | binary _ _ _ _ leftIh rightIh =>
    rw [nodesFrom, List.countP_cons_of_neg Bool.false_ne_true, List.countP_append, leftIh, rightIh,
      wordCount]

/-- Rewords one node after the other, and counts the words on the way from `position` on. -/
def rewordFrom (f : String → Nat → String) (position : Nat) : List (Node α) → List (Node α)
  | [] => []
  | node :: rest =>
    node.reword (f · position) ::
      rewordFrom f (if node.word.isSome then position + 1 else position) rest

theorem rewordFrom_append (table other : List (Node α)) (position : Nat) :
    rewordFrom f position (table ++ other) =
      rewordFrom f position table ++
        rewordFrom f (position + table.countP (·.word.isSome)) other := by
  induction table generalizing position with
  | nil => rfl
  | cons node rest ih =>
    rw [List.cons_append, rewordFrom, ih, rewordFrom, List.cons_append, List.countP_cons]
    by_cases word : node.word.isSome
    · rw [if_pos word, if_pos word, Nat.add_assoc, Nat.add_comm 1]
    · rw [if_neg word, if_neg word, Nat.add_zero]

/-- Every word is reworded for its position, whatever became of the words in front of it. -/
theorem rewordFrom_eq_mapIdx (table : List (Node α)) (position : Nat) :
    rewordFrom f position table =
      table.mapIdx fun i node => node.reword (f · (position + wordsAhead table i)) := by
  induction table generalizing position with
  | nil => rfl
  | cons node rest ih =>
    rw [rewordFrom, ih, List.mapIdx_cons]
    congr 1
    refine congrArg (rest.mapIdx ·) (funext fun i => funext fun other => ?_)
    rw [wordsAhead_cons, ← Nat.add_assoc]
    by_cases word : node.word.isSome
    · rw [if_pos word, if_pos word]
    · rw [if_neg word, if_neg word, Nat.add_zero]

@[simp] theorem size_mapWords (tree : LatentTree α) (position : Nat) :
    (tree.mapWords f position).size = tree.size := by
  induction tree generalizing position with
  | preterminal => rfl
  | unary _ _ _ ih => rw [mapWords, size, ih, size]
  | binary _ _ _ _ leftIh rightIh => rw [mapWords, size, leftIh, rightIh, size]

/-- A tree whose words are mapped has the table that comes of going through its nodes. -/
theorem nodesFrom_mapWords (tree : LatentTree α) (position start : Nat) :
    (tree.mapWords f position).nodesFrom start = rewordFrom f position (tree.nodesFrom start) := by
  induction tree generalizing position start with
  | preterminal => rfl
  | unary _ _ _ ih =>
    rw [mapWords, nodesFrom, ih, nodesFrom]
    rfl
  | binary _ _ _ _ leftIh rightIh =>
    rw [mapWords, nodesFrom, leftIh, rightIh, size_mapWords, nodesFrom, rewordFrom,
      rewordFrom_append, countP_nodesFrom]
    rfl

theorem nodes_mapWords (tree : LatentTree α) :
    (tree.mapWords f 0).nodes =
      tree.nodes.mapIdx fun i node => node.reword (f · (wordsAhead tree.nodes i)) := by
  rw [nodes, nodesFrom_mapWords, rewordFrom_eq_mapIdx]
  simp only [Nat.zero_add]
  rfl

theorem mapWords_eq_self {tree : LatentTree α} {position : Nat}
    (fixes : ∀ word ∈ tree.words, ∀ k, f word k = word) : tree.mapWords f position = tree := by
  induction tree generalizing position with
  | preterminal _ word => rw [mapWords, fixes word (List.mem_singleton_self word)]
  | unary _ _ _ ih => rw [mapWords, ih fixes]
  | binary _ _ _ _ leftIh rightIh =>
    have both := List.forall_mem_append.mp fixes
    rw [mapWords, leftIh both.1, rightIh both.2]

/-- Rewords the node at one place of some tables, given by the number of a table and a position in
it. The words in front of the node are counted in the table as it is then. -/
def rewordAt (f : String → Nat → String) (tables : List (List (Node α))) (place : Nat × Nat) :
    List (List (Node α)) :=
  tables.modify place.1 fun table =>
    table.modify place.2 (·.reword (f · (wordsAhead table place.2)))

theorem wordsAhead_modify (table : List (Node α)) (j : Nat) (g : String → String) (i : Nat) :
    wordsAhead (table.modify j (·.reword g)) i = wordsAhead table i := by
  apply wordsAhead_congr
  apply List.ext_getElem?
  intro k
  rw [List.getElem?_map, List.getElem?_modify, List.getElem?_map]
  by_cases here : j = k
  · cases table[k]? <;> simp [here]
  · cases table[k]? <;> simp [here]

section Places

variable {rest : List (Nat × Nat)} {s j : Nat}

theorem mapIdx_modify (absent : (s, j) ∉ rest) (table : List (Node α)) :
    ((table.modify j (·.reword (f · (wordsAhead table j)))).mapIdx fun i node =>
        if (s, i) ∈ rest then node.reword (f · (wordsAhead table i)) else node) =
      table.mapIdx fun i node =>
        if (s, i) ∈ (s, j) :: rest then node.reword (f · (wordsAhead table i)) else node := by
  apply List.ext_getElem?
  intro i
  rw [List.getElem?_mapIdx, List.getElem?_mapIdx, List.getElem?_modify]
  by_cases here : j = i
  · subst here
    cases table[j]? <;> simp [absent]
  · have other : (s, i) ≠ (s, j) := fun same => here (Prod.mk.inj same).2.symm
    cases table[i]? <;> simp [here, other, List.mem_cons]

/-- In whatever order places are gone through, each of them is reworded for its position in the
tables as they were at first. -/
theorem foldl_rewordAt {order : List (Nat × Nat)} (once : order.Nodup)
    (tables : List (List (Node α))) :
    order.foldl (rewordAt f) tables =
      tables.mapIdx fun t table => table.mapIdx fun i node =>
        if (t, i) ∈ order then node.reword (f · (wordsAhead table i)) else node := by
  induction order generalizing tables with
  | nil =>
    simp only [List.foldl_nil, List.not_mem_nil, if_false, List.mapIdx_eq_zipIdx_map,
      List.zipIdx_map_fst]
  | cons place rest ih =>
    obtain ⟨absent, later⟩ := List.nodup_cons.mp once
    obtain ⟨s, j⟩ := place
    rw [List.foldl_cons, ih later]
    apply List.ext_getElem?
    intro t
    rw [List.getElem?_mapIdx, List.getElem?_mapIdx, rewordAt, List.getElem?_modify]
    -- only one table was touched, and words stand in it where they stood before
    by_cases there : s = t
    · subst there
      rcases tables[s]? with _ | table
      · rfl
      · simp [wordsAhead_modify, mapIdx_modify absent]
    · have other (i : Nat) : (t, i) ≠ (s, j) := fun same => there (Prod.mk.inj same).1.symm
      rcases tables[t]? with _ | table <;> simp [there, other, List.mem_cons]

end Places

end LatentTree

namespace Forest

open LatentTree

variable {α : Type}

/-- The number of nodes with a word in all trees together. -/
def tokenCount (forest : Forest α) (word : String) : Nat :=
  (forest.trees.flatMap nodes).countP (·.word == some word)

theorem tokenCount_eq_frequency (forest : Forest α) (word : String) :
    forest.tokenCount word = frequency (forest.trees.flatMap words) word := by
  have spoken : forest.trees.flatMap words =
      (forest.trees.flatMap nodes).filterMap Node.word := by
    rw [List.filterMap_flatMap]
    exact congrArg (forest.trees.flatMap ·) (funext fun tree => (filterMap_nodesFrom tree 0).symm)
  rw [tokenCount, frequency, spoken, List.count, List.countP_filterMap]
  refine List.countP_congr fun node _ => ?_
  cases node.word <;> simp

/-- A word that occurs fewer than `threshold` times becomes what `f` makes of it and its position;
another word stays. -/
def rewording (forest : Forest α) (f : String → Nat → String) (threshold : Nat) (word : String)
    (position : Nat) : String :=
  if forest.tokenCount word < threshold then f word position else word

theorem replaceRare_eq (forest : Forest α) (f : String → Nat → String) (threshold : Nat) :
    forest.replaceRare f threshold =
      { forest with
        trees := forest.trees.map (·.mapWords (forest.rewording f threshold) 0) } := by
  have same : forest.rewording f threshold = fun word position =>
      if frequency (forest.trees.flatMap words) word < threshold then f word position else word := by
    funext word position
    rw [rewording, tokenCount_eq_frequency]
  rw [same]
  rfl

theorem tokenCount_perm {forest other : Forest α} (perm : forest.trees.Perm other.trees)
    (word : String) : forest.tokenCount word = other.tokenCount word :=
  (perm.flatMap_right nodes).countP_eq _

theorem replaceRare_rearrange (forest : Forest α) (f : String → Nat → String) (threshold : Nat)
    {numbering : List Nat} (complete : numbering.Perm (List.range forest.size)) :
    ({ forest with trees := rearrange numbering forest.trees } : Forest α).replaceRare f threshold =
      { forest with trees := rearrange numbering (forest.replaceRare f threshold).trees } := by
  have same : ({ forest with trees := rearrange numbering forest.trees } : Forest α).rewording
      f threshold = forest.rewording f threshold := by
    funext word position
    rw [rewording, rewording, tokenCount_perm (rearrange_perm complete)]
  rw [replaceRare_eq, replaceRare_eq, same, rearrange_map]

/-- Every word of a forest occurs in it, so that none is rarer than once. -/
theorem replaceRare_eq_self (forest : Forest α) (f : String → Nat → String) {threshold : Nat}
    (low : threshold ≤ 1) : forest.replaceRare f threshold = forest := by
  have fixes (tree : LatentTree α) (member : tree ∈ forest.trees) :
      tree.mapWords (forest.rewording f threshold) 0 = tree := by
    refine mapWords_eq_self fun word spoken position => ?_
    have occurs : 0 < forest.tokenCount word := by
      rw [tokenCount_eq_frequency, frequency, List.count_pos_iff]
      exact List.mem_flatMap.mpr ⟨tree, member, spoken⟩
    exact if_neg (by omega)
  rw [replaceRare_eq, List.map_congr_left fixes, List.map_id']

/-- A word at position `k` of a tree becomes `f word k` if it occurs fewer than `threshold` times in
all trees as they were, and stays otherwise; nothing else in the tables of the trees changes. The
tables may be reworded in place, at all places in any order, with the words counted before. Trees
in another order are reworded as before. No word is rarer than once. -/
theorem rareWords_reworded (forest : Forest α) (f : String → Nat → String) (threshold : Nat) :
    (forest.replaceRare f threshold).substates = forest.substates ∧
    List.Forall₂ (fun tree new : LatentTree α => new.nodes = tree.nodes.mapIdx fun i node =>
        node.reword fun word =>
          if forest.tokenCount word < threshold then f word (wordsAhead tree.nodes i) else word)
      forest.trees (forest.replaceRare f threshold).trees ∧
    (∀ order : List (Nat × Nat), order.Nodup →
      (∀ t table i, (forest.trees.map nodes)[t]? = some table → i < table.length →
        (t, i) ∈ order) →
      order.foldl (rewordAt fun word position =>
          if forest.tokenCount word < threshold then f word position else word)
        (forest.trees.map nodes) = (forest.replaceRare f threshold).trees.map nodes) ∧
    (∀ numbering : List Nat, numbering.Perm (List.range forest.size) →
      ({ forest with trees := rearrange numbering forest.trees } : Forest α).replaceRare f
          threshold =
        { forest with trees := rearrange numbering (forest.replaceRare f threshold).trees }) ∧
    (threshold ≤ 1 → forest.replaceRare f threshold = forest) := by
  refine ⟨rfl, ?_, fun order once complete => ?_, fun _ => replaceRare_rearrange forest f threshold,
    replaceRare_eq_self forest f⟩
  · rw [replaceRare_eq, List.forall₂_map_right_iff, List.forall₂_same]
    exact fun tree _ => nodes_mapWords tree
  · rw [foldl_rewordAt once, replaceRare_eq, List.map_map]
    apply List.ext_getElem?
    intro t
    rw [List.getElem?_mapIdx, List.getElem?_map, List.getElem?_map]
    cases found : forest.trees[t]? with
    | none => rfl
    | some tree =>
      have standing : (forest.trees.map nodes)[t]? = some tree.nodes := by
        rw [List.getElem?_map, found, Option.map_some]
      simp only [Option.map_some, Function.comp_apply, nodes_mapWords]
      refine congrArg some (List.mapIdx_eq_mapIdx_iff.mpr fun i below => ?_)
      exact if_pos (complete t _ i standing below)

/-- Two trees with the words *rain fell* and *fell*. -/
def rainForest : Forest Rat :=
  let scores : NodeScores Rat := ⟨⟨[1], 0⟩, ⟨[1], 0⟩⟩
  ⟨[.binary 0 scores (.preterminal 1 "rain" scores) (.preterminal 1 "fell" scores),
    .preterminal 1 "fell" scores], [1, 1]⟩

/-- A first word becomes *fell*, which is itself rare before, and not so rare with those put in. -/
theorem rainForest_reworded :
    let f := fun (_ : String) (position : Nat) => if position = 0 then "fell" else "other"
    let new := rainForest.replaceRare f 3
    new.trees.map words = [["fell", "other"], ["fell"]] ∧
      [(1, 0), (0, 2), (0, 0), (0, 1)].foldl (rewordAt (rainForest.rewording f 3))
        (rainForest.trees.map nodes) = new.trees.map nodes ∧
      ({ rainForest with trees := rearrange [1, 0] rainForest.trees } : Forest Rat).replaceRare f
          3 = { rainForest with trees := rearrange [1, 0] new.trees } ∧
      rainForest.replaceRare f 1 = rainForest := by
  intro f new
  obtain ⟨-, -, inPlace, rearranged, -⟩ := rareWords_reworded rainForest f 3
  obtain ⟨-, -, -, -, unchanged⟩ := rareWords_reworded rainForest f 1
  refine ⟨rfl, inPlace _ (by decide) ?_, rearranged [1, 0] (List.Perm.swap 0 1 []),
    unchanged (Nat.le_refl 1)⟩
  rintro (_ | _ | t) table i found below
  · obtain rfl := Option.some.inj found
    have bounded : i < 3 := below
    interval_cases i <;> simp
  · obtain rfl := Option.some.inj found
    obtain rfl : i = 0 := Nat.lt_one_iff.mp below
    simp
  · cases found

end Forest

end LatentGrammar
