import LatentGrammar.Proofs.Consistency.Candidates

namespace LatentGrammar

variable {α : Type}

/-- The pairs have no substate in common. -/
def Apart (one two : Nat × Nat) : Prop :=
  one.1 ≠ two.1 ∧ one.1 ≠ two.2 ∧ one.2 ≠ two.1 ∧ one.2 ≠ two.2

theorem Apart.symm {one two : Nat × Nat} (apart : Apart one two) : Apart two one :=
  ⟨apart.1.symm, apart.2.2.1.symm, apart.2.1.symm, apart.2.2.2.symm⟩

/-- Pairs of two substates each, no two of which have a substate in common. -/
structure DisjointPairs (pairs : List (Nat × Nat)) : Prop where
  distinct : ∀ pair ∈ pairs, pair.1 ≠ pair.2
  apart : pairs.Pairwise Apart

namespace Ancestry

theorem pairUp_disjoint {members : List Nat} (nodup : members.Nodup) :
    DisjointPairs (pairUp members) := by
  induction members using pairUp.induct with
  | case1 first second rest ih =>
    obtain ⟨firstNew, later⟩ := List.nodup_cons.mp nodup
    obtain ⟨secondNew, restNodup⟩ := List.nodup_cons.mp later
    obtain ⟨distinct, apart⟩ := ih restNodup
    rw [pairUp]
    refine ⟨List.forall_mem_cons.mpr ⟨fun same => firstNew (by simp [show first = second from same]),
      distinct⟩, List.pairwise_cons.mpr ⟨fun pair member => ?_, apart⟩⟩
    obtain ⟨one, two⟩ := mem_pairUp member
    exact ⟨fun same => firstNew (by simp [show first = pair.1 from same, one]),
      fun same => firstNew (by simp [show first = pair.2 from same, two]),
      fun same => secondNew (by simp [show second = pair.1 from same, one]),
      fun same => secondNew (by simp [show second = pair.2 from same, two])⟩
  | case2 members short =>
    rw [pairUp.eq_2 members short]
    exact ⟨fun _ absent => absurd absent List.not_mem_nil, .nil⟩

theorem mem_family_iff {ancestry : Ancestry} {parent : Option Nat} {substate : Nat} :
    substate ∈ ancestry.family parent ↔ ancestry.parents[substate]? = some parent := by
  simp only [family, List.mem_map, List.mem_filter, Prod.exists, List.mem_zipIdx_iff_getElem?,
    beq_iff_eq]
  constructor
  · rintro ⟨_, _, ⟨found, rfl⟩, rfl⟩
    exact found
  · intro found
    exact ⟨parent, substate, ⟨found, rfl⟩, rfl⟩

theorem pairwise_family (ancestry : Ancestry) (parent : Option Nat) :
    (ancestry.family parent).Pairwise (· < ·) := by
  have numbers : (ancestry.parents.zipIdx.map (·.2)).Pairwise (· < ·) := by
    rw [List.zipIdx_map_snd]
    exact List.pairwise_lt_range'
  exact numbers.sublist ((List.filter_sublist).map _)

theorem nodup_family (ancestry : Ancestry) (parent : Option Nat) :
    (ancestry.family parent).Nodup :=
  (ancestry.pairwise_family parent).imp Nat.ne_of_lt

theorem nodup_eraseDups {β : Type} [BEq β] [LawfulBEq β] (items : List β) :
    items.eraseDups.Nodup := by
  cases items with
  | nil => exact List.nodup_nil
  | cons first rest =>
    rw [List.eraseDups_cons, List.nodup_cons]
    exact ⟨by simp [List.mem_eraseDups], nodup_eraseDups (rest.filter fun other => !other == first)⟩
termination_by items.length
decreasing_by exact Nat.lt_succ_of_le (List.length_filter_le _ _)

theorem pairs_disjoint (ancestry : Ancestry) : DisjointPairs ancestry.pairs := by
  have each (parent : Option Nat) := pairUp_disjoint (ancestry.nodup_family parent)
  constructor
  · intro pair member
    obtain ⟨group, isGroup, paired⟩ := List.mem_flatMap.mp member
    obtain ⟨parent, -, rfl⟩ := List.mem_map.mp isGroup
    exact (each parent).distinct pair paired
  · rw [pairs, groups, List.flatMap_map, List.pairwise_flatMap]
    refine ⟨fun parent _ => (each parent).apart, (nodup_eraseDups _).imp ?_⟩
    intro parent other different one oneMember two twoMember
    have apart {n m : Nat} (here : n ∈ ancestry.family parent) (there : m ∈ ancestry.family other) :
        n ≠ m := by
      rintro rfl
      exact different (Option.some.inj ((mem_family_iff.mp here).symm.trans
        (mem_family_iff.mp there)))
    obtain ⟨first, second⟩ := mem_pairUp oneMember
    obtain ⟨first', second'⟩ := mem_pairUp twoMember
    exact ⟨apart first first', apart first second', apart second first', apart second second'⟩

end Ancestry

namespace SiblingPair

/-- The category of a candidate and its two substates. -/
def place (pair : SiblingPair α) : Nat × Nat × Nat := (pair.state, pair.first, pair.second)

/-- The pairs of one category among some candidates. -/
def pairsOf (state : Nat) (candidates : List (SiblingPair α)) : List (Nat × Nat) :=
  (candidates.filter (·.state == state)).map fun pair => (pair.first, pair.second)

theorem pairsOf_eq (state : Nat) (candidates : List (SiblingPair α)) :
    pairsOf state candidates = ((candidates.map place).filter (·.1 == state)).map (·.2) := by
  rw [List.filter_map, List.map_map]
  rfl

theorem length_pairsOf (state : Nat) (candidates : List (SiblingPair α)) :
    (pairsOf state candidates).length = candidates.countP (·.state == state) := by
  rw [pairsOf, List.length_map, List.countP_eq_length_filter]

theorem disjoint_of_subperm {candidates selected : List (SiblingPair α)} {state : Nat}
    (some : (selected.map place).Subperm (candidates.map place))
    (disjoint : DisjointPairs (pairsOf state candidates)) :
    DisjointPairs (pairsOf state selected) := by
  have chosen : (pairsOf state selected).Subperm (pairsOf state candidates) := by
    obtain ⟨others, perm, sub⟩ := some
    rw [pairsOf_eq, pairsOf_eq]
    exact ⟨_, (perm.filter _).map _, (sub.filter _).map _⟩
  refine ⟨fun pair member => disjoint.distinct pair (chosen.subset member), ?_⟩
  obtain ⟨others, perm, sub⟩ := chosen
  exact (disjoint.apart.sublist sub).perm perm Apart.symm

variable [Scalar α]

theorem select_subperm [TotalOrder α] (separate : Bool) (share : α) (lexical : List Bool)
    (candidates : List (SiblingPair α)) :
    (select separate share lexical candidates).Subperm candidates := by
  have cheap (some : List (SiblingPair α)) : (cheapest share some).Subperm some :=
    (List.take_sublist _ _).subperm.trans (List.mergeSort_perm _ _).subperm
  unfold select
  split
  · exact ((cheap _).append (cheap _)).trans (List.filter_append_perm _ candidates).subperm
  · exact cheap candidates

theorem select_places [TotalOrder α] (separate : Bool) (share : α) (lexical : List Bool)
    (candidates : List (SiblingPair α)) :
    ((select separate share lexical candidates).map place).Subperm (candidates.map place) := by
  obtain ⟨others, perm, sub⟩ := select_subperm separate share lexical candidates
  exact ⟨_, perm.map _, sub.map _⟩

end SiblingPair

namespace Model

variable [Scalar α] {model : Model α} {forest : Forest α} {weights : List (List α)}
  {candidates : List (SiblingPair α)}

omit [Scalar α] in
theorem pairsOf_map [Zero α] (state number : Nat) (pairs : List (Nat × Nat)) :
    SiblingPair.pairsOf state
        (pairs.map fun (first, second) => (⟨number, first, second, 0⟩ : SiblingPair α)) =
      if number = state then pairs else [] := by
  rw [SiblingPair.pairsOf_eq, List.map_map, List.filter_map, List.map_map]
  split
  · rename_i same
    simp [Function.comp_def, SiblingPair.place, same]
  · rename_i other
    simp [Function.comp_def, SiblingPair.place, other]

/-- Each category's candidates are the pairs of its ancestry. -/
theorem mergeCandidates_disjoint (model : Model α) (state : Nat) :
    DisjointPairs (SiblingPair.pairsOf state model.mergeCandidates) := by
  -- the candidates of one category come from a single entry
  have entries : SiblingPair.pairsOf state model.mergeCandidates =
      model.grammar.ancestry.zipIdx.flatMap fun entry =>
        if entry.2 = state ∧ entry.2 ≠ model.grammar.root then entry.1.pairs else [] := by
    rw [SiblingPair.pairsOf, mergeCandidates, List.filter_flatMap, List.map_flatMap]
    congr 1
    funext entry
    obtain ⟨ancestry, number⟩ := entry
    by_cases isRoot : number = model.grammar.root
    · simp [isRoot]
    · simpa [isRoot, SiblingPair.pairsOf] using pairsOf_map state number ancestry.pairs
  have within {entry : Ancestry × Nat} {pair : Nat × Nat}
      (member : pair ∈ if entry.2 = state ∧ entry.2 ≠ model.grammar.root then entry.1.pairs
        else []) : entry.2 = state ∧ pair ∈ entry.1.pairs := by
    split at member
    · rename_i here
      exact ⟨here.1, member⟩
    · exact absurd member List.not_mem_nil
  rw [entries]
  constructor
  · intro pair member
    obtain ⟨entry, -, paired⟩ := List.mem_flatMap.mp member
    exact entry.1.pairs_disjoint.distinct pair (within paired).2
  · refine List.pairwise_flatMap.mpr ⟨fun entry _ => ?_, ?_⟩
    · split
      · exact entry.1.pairs_disjoint.apart
      · exact .nil
    · have numbers : (model.grammar.ancestry.zipIdx.map (·.2)).Nodup := by
        rw [List.zipIdx_map_snd]
        exact List.nodup_range'
      refine (List.pairwise_map.mp numbers).imp fun different one oneMember two twoMember => ?_
      exact absurd ((within oneMember).1.trans (within twoMember).1.symm) different

theorem addLosses_places (states : Nat) (node : LatentTree α) :
    Delivers Any (fun next : List (SiblingPair α) =>
        next.map SiblingPair.place = candidates.map SiblingPair.place)
      (addLosses states weights candidates node) := by
  refine Delivers.ite (fun _ => rfl) fun _ => ?_
  have each (candidate : SiblingPair α) (total : α) :
      Delivers Any (·.place = candidate.place) (addLoss weights node total candidate) := by
    refine Delivers.ite (fun _ => rfl) fun _ => ?_
    refine (delivers_any _).bind fun _ _ => (delivers_any _).bind fun _ _ => ?_
    exact Delivers.ite (fun _ => rfl) fun _ => rfl
  have all (total : α) :
      Delivers Any (fun next : List (SiblingPair α) =>
          next.map SiblingPair.place = candidates.map SiblingPair.place)
        (candidates.mapM (addLoss weights node total)) := by
    refine (Delivers.mapM fun candidate _ => each candidate total).mono fun next same => ?_
    induction same with
    | nil => rfl
    | cons here _ ih => rw [List.map_cons, List.map_cons, here, ih]
  split
  · trivial
  · exact all _

theorem mergeLosses_places (model : Model α) (forest : Forest α) (weights : List (List α)) :
    Delivers Any (fun candidates : List (SiblingPair α) =>
        candidates.map SiblingPair.place = model.mergeCandidates.map SiblingPair.place)
      (Training.Pass.ofSweep forest (model.mergeLosses forest weights)).2 := by
  have each (index : Nat) (tree : LatentTree α) (candidates : List (SiblingPair α)) (_ : True)
      (same : candidates.map SiblingPair.place = model.mergeCandidates.map SiblingPair.place) :
      Delivers Any (fun next => True ∧
          next.2.map SiblingPair.place = model.mergeCandidates.map SiblingPair.place)
        (model.judgeTree weights tree candidates) := by
    refine (delivers_any _).bind fun scored _ => (delivers_any _).bind fun mass _ => ?_
    refine Delivers.ite (fun _ => ?_) fun _ => ⟨trivial, same⟩
    suffices judged : Delivers Any (fun next : List (SiblingPair α) =>
        next.map SiblingPair.place = model.mergeCandidates.map SiblingPair.place) _ from
      judged.bind fun _ same => ⟨trivial, same⟩
    exact Delivers.foldlM same fun candidates node _ same =>
      (addLosses_places _ node).mono fun next kept => kept.trans same
  unfold mergeLosses
  dsimp only
  split
  · exact (Forest.sweep_delivers each (fun _ _ => trivial) rfl 0).2
  · trivial

end Model

/-- The number of entries that are their own targets, in a table that starts at `first`. -/
def selfTargets (first : Nat) : List Nat → Nat
  | [] => 0
  | target :: rest => selfTargets (first + 1) rest + if target = first then 1 else 0

theorem selfTargets_range' (first count : Nat) :
    selfTargets first (List.range' first count) = count := by
  induction count generalizing first with
  | zero => rfl
  | succ count ih => simp [List.range'_succ, selfTargets, ih]

theorem selfTargets_set {targets : List Nat} {first index target : Nat}
    (own : targets[index]? = some (first + index)) (other : target ≠ first + index) :
    selfTargets first (targets.set index target) + 1 = selfTargets first targets := by
  induction targets generalizing first index with
  | nil => cases own
  | cons here rest ih =>
    cases index with
    | zero =>
      obtain rfl : here = first := by simpa using own
      rw [List.set_cons_zero, selfTargets, selfTargets, if_pos rfl,
        if_neg (show target ≠ here from other)]
    | succ index =>
      have shift : first + (index + 1) = first + 1 + index := by omega
      rw [shift] at own other
      have below := ih (by simpa using own) other
      rw [List.set_cons_succ, selfTargets, selfTargets]
      omega

/-- Sends the greater substate of a pair to the smaller one. -/
def collapsePair (targets : List Nat) (pair : Nat × Nat) : Except Fault (List Nat) := do
  let _ ← fetch targets (max pair.1 pair.2)
  return targets.set (max pair.1 pair.2) (min pair.1 pair.2)

theorem collapseTargets_eq (size : Nat) (pairs : List (Nat × Nat)) :
    collapseTargets size pairs = pairs.foldlM collapsePair (List.range size) := rfl

/-- Targets are no greater than what they are the targets of. -/
def Downward (first : Nat) (targets : List Nat) : Prop :=
  ∀ index target, targets[index]? = some target → target ≤ first + index

/-- Each of disjoint pairs takes its greater substate away from those that stay. -/
theorem foldlM_collapsePair {pairs : List (Nat × Nat)} (disjoint : DisjointPairs pairs)
    {targets : List Nat} (downward : Downward 0 targets)
    (own : ∀ pair ∈ pairs, ∀ n, n = pair.1 ∨ n = pair.2 → n < targets.length →
      targets[n]? = some n) :
    Delivers Any (fun next => Downward 0 next ∧
        selfTargets 0 next + pairs.length = selfTargets 0 targets)
      (pairs.foldlM collapsePair targets) := by
  induction pairs generalizing targets with
  | nil => exact ⟨downward, rfl⟩
  | cons pair rest ih =>
    obtain ⟨distinct, restDistinct⟩ := List.forall_mem_cons.mp disjoint.distinct
    obtain ⟨apart, restApart⟩ := List.pairwise_cons.mp disjoint.apart
    obtain ⟨ownHere, ownLater⟩ := List.forall_mem_cons.mp own
    have stepped : Delivers Any (fun next => max pair.1 pair.2 < targets.length ∧
        next = targets.set (max pair.1 pair.2) (min pair.1 pair.2))
        (collapsePair targets pair) :=
      (delivers_any _).bind_ok fun _ found _ =>
        ⟨(List.getElem?_eq_some_iff.mp (fetch_eq_ok_iff.mp found)).1, rfl⟩
    have greater : max pair.1 pair.2 = pair.1 ∨ max pair.1 pair.2 = pair.2 := by omega
    rw [List.foldlM_cons]
    refine stepped.bind fun next ⟨inside, same⟩ => ?_
    subst same
    have kept := ownHere _ greater inside
    have fewer : selfTargets 0 (targets.set (max pair.1 pair.2) (min pair.1 pair.2)) + 1 =
        selfTargets 0 targets :=
      selfTargets_set (by rw [Nat.zero_add]; exact kept) (by omega)
    refine (ih ⟨restDistinct, restApart⟩ ?_ ?_).mono fun final ⟨downward, count⟩ =>
      ⟨downward, by rw [List.length_cons]; omega⟩
    · intro index target found
      rw [List.getElem?_set] at found
      split at found
      · have same := Option.some.inj found
        omega
      · exact downward index target found
    · intro other member n belongs below
      have elsewhere : max pair.1 pair.2 ≠ n := by
        obtain ⟨one, two, three, four⟩ := apart other member
        rcases greater with first | second
        · rw [first]
          rcases belongs with rfl | rfl <;> assumption
        · rw [second]
          rcases belongs with rfl | rfl <;> assumption
      rw [List.getElem?_set_ne elsewhere]
      exact ownLater other member n belongs (by simpa using below)

/-- The numbers that are given out are those below their count. -/
theorem numberTargets_greatest {numbered targets : List Nat} {next : Nat}
    (given : ∀ number ∈ numbered, number < next) (downward : Downward numbered.length targets) :
    (∀ number ∈ numberTargets numbered next targets,
        number < next + selfTargets numbered.length targets) ∧
      (0 < selfTargets numbered.length targets →
        next + selfTargets numbered.length targets - 1 ∈ numberTargets numbered next targets) := by
  induction targets generalizing numbered next with
  | nil =>
    exact ⟨fun _ absent => absurd absent List.not_mem_nil,
      fun some => absurd some (Nat.lt_irrefl 0)⟩
  | cons target rest ih =>
    have later (number : Nat) : Downward (numbered ++ [number]).length rest := by
      intro index target found
      have bound := downward (index + 1) target (by simpa using found)
      rw [List.length_append, List.length_singleton]
      omega
    have below {number limit : Nat} (small : number < limit) (bound : next ≤ limit) :
        ∀ other ∈ numbered ++ [number], other < limit := by
      intro other member
      rcases List.mem_append.mp member with before | last
      · exact Nat.lt_of_lt_of_le (given other before) bound
      · obtain rfl := List.mem_singleton.mp last
        exact small
    rw [numberTargets, selfTargets]
    by_cases self : target = numbered.length
    · obtain ⟨bound, reached⟩ := ih (below (Nat.lt_succ_self next) (Nat.le_succ next)) (later next)
      rw [List.length_append, List.length_singleton] at bound reached
      simp only [self, beq_self_eq_true, if_true]
      refine ⟨List.forall_mem_cons.mpr ⟨by omega, fun number member => ?_⟩, fun _ => ?_⟩
      · have small := bound number member
        omega
      · rcases Nat.eq_zero_or_pos (selfTargets (numbered.length + 1) rest) with none | some
        · rw [none]
          exact List.mem_cons_self
        · refine List.mem_cons_of_mem _ ?_
          have last := reached some
          rwa [show next + 1 + selfTargets (numbered.length + 1) rest - 1 =
            next + (selfTargets (numbered.length + 1) rest + 1) - 1 by omega] at last
    · have inside : target < numbered.length := by
        have bound : target ≤ numbered.length + 0 := downward 0 target rfl
        omega
      have number := given _ (List.getElem_mem inside)
      obtain ⟨bound, reached⟩ := ih (below number (Nat.le_refl next)) (later numbered[target])
      rw [List.length_append, List.length_singleton] at bound reached
      simp only [beq_iff_eq, self, if_false, List.getElem?_eq_getElem inside, Option.getD_some,
        Nat.add_zero]
      exact ⟨List.forall_mem_cons.mpr ⟨Nat.lt_of_lt_of_le number (Nat.le_add_right _ _), bound⟩,
        fun some => List.mem_cons_of_mem _ (reached some)⟩

/-- A category loses as many substates as disjoint pairs of them are merged. -/
theorem collapseMap_imageSize {pairs : List (Nat × Nat)} {size new : Nat} {mapping : List Nat}
    (disjoint : DisjointPairs pairs) (mapped : collapseMap size pairs = .ok mapping)
    (sized : imageSize mapping = .ok new) : new + pairs.length = size := by
  obtain ⟨-, -, mapped⟩ := bind_eq_ok_iff.mp mapped
  obtain ⟨targets, collapsed, done⟩ := bind_eq_ok_iff.mp mapped
  obtain rfl := Except.ok.inj done
  rw [collapseTargets_eq] at collapsed
  have untouched (index target : Nat) (found : (List.range size)[index]? = some target) :
      target = index := by
    obtain ⟨_, same⟩ := List.getElem?_eq_some_iff.mp found
    simpa using same.symm
  obtain ⟨downward, count⟩ := (foldlM_collapsePair disjoint
    (fun index target found => by rw [untouched index target found]; omega)
    (fun _ _ n _ below => List.getElem?_range (by simpa using below))).of_ok collapsed
  rw [List.range_eq_range', selfTargets_range'] at count
  obtain ⟨bound, reached⟩ := numberTargets_greatest
    (fun number absent => absurd absent List.not_mem_nil : ∀ number ∈ [], number < 0) downward
  rw [List.length_nil, Nat.zero_add] at bound reached
  unfold imageSize at sized
  split at sized
  · rename_i none
    obtain rfl := Except.ok.inj sized
    rw [List.max?_eq_none_iff.mp none] at reached
    rcases Nat.eq_zero_or_pos (selfTargets 0 targets) with zero | some
    · omega
    · exact absurd (reached some) List.not_mem_nil
  · rename_i greatest found
    obtain ⟨-, rfl⟩ := word_eq_ok_iff.mp sized
    obtain ⟨member, largest⟩ := List.max?_eq_some_iff.mp found
    have below := bound greatest member
    have above := largest _ (reached (by omega))
    omega

/-- Every category's mapping collapses the pairs selected for it. -/
theorem collapseMaps_eq_ok {substates : List Nat} {selected : List (SiblingPair α)}
    {mappings : List (List Nat)} (done : collapseMaps substates selected = .ok mappings) :
    mappings.length = substates.length ∧
      ∀ (state : Nat) mapping, mappings[state]? = some mapping →
        ∃ size, substates[state]? = some size ∧
          collapseMap size (SiblingPair.pairsOf state selected) = .ok mapping := by
  have numbered : Delivers Any (fun mappings : List (List Nat) =>
      mappings.length = substates.length ∧
        ∀ (state : Nat) mapping, mappings[state]? = some mapping →
          ∃ size, substates[state]? = some size ∧
            collapseMap size (SiblingPair.pairsOf state selected) = .ok mapping)
      (collapseMaps substates selected) :=
    Delivers.mapM_zipIdx fun size state found =>
      (delivers_any _).mono_ok fun mapping done _ => ⟨size, found, done⟩
  exact numbered.of_ok done

variable [Scalar α]

/-- Where disjoint pairs are merged, every category loses as many substates as pairs of it were
selected. -/
theorem Model.merge_sizes {model merged : Model α} {selected : List (SiblingPair α)}
    {weights : List (List α)}
    (disjoint : ∀ state, DisjointPairs (SiblingPair.pairsOf state selected))
    (done : model.merge selected weights = .ok merged) :
    merged.substates.length = model.substates.length ∧
      ∀ (state size : Nat), model.substates[state]? = some size →
        ∃ left, merged.substates[state]? = some left ∧
          left + selected.countP (·.state == state) = size := by
  obtain ⟨mappings, mapped, done⟩ := bind_eq_ok_iff.mp done
  obtain ⟨grammar, collapsed, done⟩ := bind_eq_ok_iff.mp done
  obtain ⟨lexicon, -, done⟩ := bind_eq_ok_iff.mp done
  obtain rfl := Except.ok.inj done
  obtain ⟨substates, sized, collapsed⟩ := bind_eq_ok_iff.mp collapsed
  obtain ⟨-, -, collapsed⟩ := bind_eq_ok_iff.mp collapsed
  obtain ⟨rules, -, collapsed⟩ := bind_eq_ok_iff.mp collapsed
  obtain ⟨ancestry, -, done⟩ := bind_eq_ok_iff.mp collapsed
  obtain rfl := Except.ok.inj done
  obtain ⟨length, each⟩ := collapseMaps_eq_ok mapped
  have images : List.Forall₂ (fun mapping size => imageSize mapping = .ok size) mappings substates :=
    ((Delivers.mapM fun mapping _ => (delivers_any (imageSize mapping)).mono_ok
      fun _ done _ => done).of_ok sized)
  refine ⟨images.length_eq.symm.trans length, fun state size known => ?_⟩
  have inside : state < mappings.length := by
    rw [length]
    exact (List.getElem?_eq_some_iff.mp known).1
  have present := List.getElem?_eq_getElem inside
  obtain ⟨same, again, collapses⟩ := each state _ present
  obtain rfl := Option.some.inj (known.symm.trans again)
  obtain ⟨left, found, counted⟩ := exists_of_forall₂ images.flip present
  refine ⟨left, found, ?_⟩
  rw [← SiblingPair.length_pairsOf]
  exact collapseMap_imageSize (disjoint state) collapses counted

end LatentGrammar
