import LatentGrammar.Checkpoint.Encode
import LatentGrammar.Proofs.Merging.Lineages
import LatentGrammar.Proofs.Reestimation.Siblings

namespace LatentGrammar

namespace Ancestry

variable {ancestry merged : Ancestry} {mapping members group numbers : List Nat} {s new : Nat}

/-- Of the members of a group, only the last one of an odd number is in no pair. -/
theorem mem_pairUp_member (nodup : members.Nodup) (member : s ∈ members) :
    (∃ pair ∈ pairUp members, s = pair.1 ∨ s = pair.2) ↔
      ¬(members.length % 2 = 1 ∧ members.getLast? = some s) := by
  induction members using pairUp.induct with
  | case1 first second rest ih =>
    obtain ⟨firstNew, later⟩ := List.nodup_cons.mp nodup
    obtain ⟨secondNew, restNodup⟩ := List.nodup_cons.mp later
    have odd : (first :: second :: rest).length % 2 = rest.length % 2 := by
      rw [List.length_cons, List.length_cons, Nat.add_assoc, Nat.add_mod_right]
    have last (single : rest.length % 2 = 1) :
        (first :: second :: rest).getLast? = rest.getLast? := by
      cases rest with
      | nil => exact absurd single (by decide)
      | cons third rest => simp [List.getLast?_cons_cons]
    rw [pairUp, odd]
    simp only [List.exists_mem_cons_iff]
    by_cases inRest : s ∈ rest
    · have notHere : ¬(s = first ∨ s = second) := by
        rintro (rfl | rfl)
        · exact firstNew (List.mem_cons_of_mem _ inRest)
        · exact secondNew inRest
      rw [or_iff_right notHere, ih restNodup inRest]
      exact not_congr (and_congr_right fun single => by rw [last single])
    · have here : s = first ∨ s = second := by simpa [inRest] using member
      refine iff_of_true (.inl here) fun alone => inRest ?_
      exact List.mem_of_getLast? ((last alone.1).symm.trans alone.2)
  | case2 members short =>
    rw [pairUp.eq_2 members short]
    refine iff_of_false (fun paired => ?_) (not_not.mpr ?_)
    · obtain ⟨pair, absent, -⟩ := paired
      exact List.not_mem_nil absent
    · rcases members with _ | ⟨one, _ | ⟨two, rest⟩⟩
      · exact absurd member List.not_mem_nil
      · simp [List.mem_singleton.mp member]
      · exact absurd rfl (short one two rest)

/-- Families in whatever order hold every substate once. -/
theorem groups_flatten_perm (ancestry : Ancestry) :
    ancestry.groups.flatten.Perm (List.range ancestry.size) := by
  have nodup : ancestry.groups.flatten.Nodup := by
    rw [groups, ← List.flatMap_def]
    refine List.nodup_flatMap.mpr ⟨fun parent _ => ancestry.nodup_family parent,
      (nodup_eraseDups _).imp fun different s here there => different ?_⟩
    exact Option.some.inj ((mem_family_iff.mp here).symm.trans (mem_family_iff.mp there))
  refine (List.perm_ext_iff_of_nodup nodup List.nodup_range).mpr fun s => ?_
  rw [List.mem_flatten, List.mem_range]
  constructor
  · rintro ⟨group, isGroup, member⟩
    obtain ⟨parent, -, rfl⟩ := List.mem_map.mp isGroup
    exact lt_size_of_parent (mem_family_iff.mp member)
  · exact exists_group

/-- The groups are the classes of substates with the same parent, one for each parent, and the pairs
are disjoint and within groups. Only the last one of an odd group is in no pair. -/
structure Grouped (ancestry : Ancestry) : Prop where
  partition : ancestry.groups.flatten.Perm (List.range ancestry.size)
  families : ∃ parents : List (Option Nat), parents.Nodup ∧
    (∀ parent, parent ∈ parents ↔ parent ∈ ancestry.parents) ∧
    List.Forall₂ (fun parent group => group ≠ [] ∧
      ∀ s, s ∈ group ↔ ancestry.parents[s]? = some parent) parents ancestry.groups
  disjoint : DisjointPairs ancestry.pairs
  siblings : ∀ pair ∈ ancestry.pairs, ∃ parent,
    ancestry.parents[pair.1]? = some parent ∧ ancestry.parents[pair.2]? = some parent
  covered : ∀ group ∈ ancestry.groups, ∀ s ∈ group,
    (∃ pair ∈ ancestry.pairs, s = pair.1 ∨ s = pair.2) ↔
      ¬(group.length % 2 = 1 ∧ group.getLast? = some s)

theorem grouped (ancestry : Ancestry) : ancestry.Grouped where
  partition := ancestry.groups_flatten_perm
  families := by
    refine ⟨_, nodup_eraseDups ancestry.parents, fun _ => List.mem_eraseDups, ?_⟩
    rw [groups, List.forall₂_map_right_iff, List.forall₂_same]
    intro parent present
    obtain ⟨s, found⟩ := List.getElem?_of_mem (List.mem_eraseDups.mp present)
    exact ⟨List.ne_nil_of_mem (mem_family_iff.mpr found), fun s => mem_family_iff⟩
  disjoint := ancestry.pairs_disjoint
  siblings pair member := by
    obtain ⟨parent, n, first, second⟩ := mem_pairs_iff.mp member
    exact ⟨parent, mem_family_iff.mp (List.mem_of_getElem? first),
      mem_family_iff.mp (List.mem_of_getElem? second)⟩
  covered group isGroup s member := by
    obtain ⟨parent, present, rfl⟩ := List.mem_map.mp isGroup
    rw [← mem_pairUp_member (ancestry.nodup_family parent) member, pairs]
    constructor
    · rintro ⟨pair, paired, inside⟩
      obtain ⟨other, isOther, here⟩ := List.mem_flatMap.mp paired
      obtain ⟨parent', -, rfl⟩ := List.mem_map.mp isOther
      have there : s ∈ ancestry.family parent' := by
        rcases inside with rfl | rfl
        · exact (mem_pairUp here).1
        · exact (mem_pairUp here).2
      have same := (mem_family_iff.mp member).symm.trans (mem_family_iff.mp there)
      exact ⟨pair, Option.some.inj same ▸ here, inside⟩
    · rintro ⟨pair, here, inside⟩
      exact ⟨pair, List.mem_flatMap.mpr ⟨_, isGroup, here⟩, inside⟩

/-- Parents are there and never decrease, and they are numbers of substates, of the ancestry itself or
of some that fit in a table. -/
structure Ascending (ancestry : Ancestry) (numbers : List Nat) : Prop where
  parents_eq : ancestry.parents = numbers.map some
  ordered : numbers.Pairwise (· ≤ ·)
  bounded : ∀ number ∈ numbers, number < max ancestry.size Word.tableLimit

theorem exists_numbers (complete : ancestry.Complete) :
    ∃ numbers : List Nat, numbers.map some = ancestry.parents := by
  refine ⟨ancestry.parents.map (·.getD 0), ?_⟩
  rw [List.map_map]
  refine (List.map_congr_left fun parent member => ?_).trans (List.map_id _)
  obtain ⟨number, rfl⟩ := Option.ne_none_iff_exists'.mp fun unset => complete (unset ▸ member)
  rfl

theorem Ascending.le (ascending : ancestry.Ascending numbers) {s t p q : Nat} (before : s < t)
    (found : numbers[s]? = some p) (found' : numbers[t]? = some q) : p ≤ q := by
  obtain ⟨inS, rfl⟩ := List.getElem?_eq_some_iff.mp found
  obtain ⟨inT, rfl⟩ := List.getElem?_eq_some_iff.mp found'
  exact List.pairwise_iff_getElem.mp ascending.ordered s t inS inT before

theorem uniform_ascending (count : Nat) :
    Ascending ⟨List.replicate count (some 0)⟩ (List.replicate count 0) where
  parents_eq := List.map_replicate.symm
  ordered := List.pairwise_replicate.mpr (.inr (Nat.le_refl 0))
  bounded number member := by
    rw [List.eq_of_mem_replicate member]
    exact lt_max_of_lt_right (by decide)

theorem split_ascending (ancestry : Ancestry) :
    ancestry.split.Ascending ((List.range (ancestry.size * 2)).map (· / 2)) where
  parents_eq := List.map_map.symm
  ordered := List.pairwise_map.mpr
    (List.pairwise_lt_range.imp fun before => Nat.div_le_div_right before.le)
  bounded number member := by
    obtain ⟨s, inside, rfl⟩ := List.mem_map.mp member
    have below := List.mem_range.mp inside
    have size : ancestry.split.size = ancestry.size * 2 := by simp [split, Ancestry.size]
    exact lt_max_of_lt_left (by omega)

theorem renumber_ascending (ancestry : Ancestry) :
    ancestry.renumber.Ascending (List.range ancestry.size) where
  parents_eq := rfl
  ordered := List.pairwise_lt_range.imp Nat.le_of_lt
  bounded number member := by
    have size : ancestry.renumber.size = ancestry.size := by simp [renumber, Ancestry.size]
    exact lt_max_of_lt_left (size ▸ List.mem_range.mp member)

/-- Merged substates are numbered as the first ones that went into them, and so keep their order. -/
theorem first_lt_first {pairs : List (Nat × Nat)} {size t image other : Nat}
    (collapses : Collapses mapping size pairs)
    (inside : ∀ pair ∈ pairs, pair.1 < size ∧ pair.2 < size) (first : First mapping s image)
    (second : First mapping t other) (before : image < other) : s < t := by
  have lowest := lowest_of_first collapses inside first
  have lowest' := lowest_of_first collapses inside second
  rcases Nat.lt_trichotomy s t with less | rfl | greater
  · exact less
  · exact absurd (Option.some.inj (first.1.symm.trans second.1)) before.ne
  · have after := collapses.increasing t s other image second.1 first.1 lowest' lowest greater
    exact absurd before after.not_gt

theorem Ascending.merge {pairs : List (Nat × Nat)}
    (ascending : ancestry.Ascending numbers) (some : pairs.Subperm ancestry.pairs)
    (mapped : collapseMap ancestry.size pairs = .ok mapping) (sized : imageSize mapping = .ok new)
    (done : ancestry.merge mapping new = .ok merged) : ∃ numbers, merged.Ascending numbers := by
  have complete : ancestry.Complete := by
    rw [Complete, ascending.parents_eq]
    simp
  obtain ⟨collapses, room, maps⟩ := collapses_of_subperm some mapped sized
  have inherits := (merge_inherits rfl complete maps fun _ => any_overflow).of_ok done
  obtain ⟨taken, known⟩ := exists_numbers inherits.complete
  -- each merged substate goes back to the first one that went into it
  have source (image : Nat) (below : image < taken.length) :
      ∃ s, First mapping s image ∧ numbers[s]? = Option.some taken[image] := by
    have length : taken.length = new := by
      rw [← List.length_map (f := Option.some), known]
      exact inherits.fits
    obtain ⟨s, first⟩ := exists_first ((maps.onto image).mpr (length ▸ below))
    refine ⟨s, first, ?_⟩
    have same := inherits.lowest s image first
    rw [← known, ascending.parents_eq, List.getElem?_map, List.getElem?_map,
      List.getElem?_eq_getElem below] at same
    exact Option.map_injective (Option.some_injective Nat) same.symm
  refine ⟨taken, known.symm, List.pairwise_iff_getElem.mpr ?_, fun number member => ?_⟩
  · intro i j inI inJ before
    obtain ⟨s, first, found⟩ := source i inI
    obtain ⟨t, second, found'⟩ := source j inJ
    have less := first_lt_first collapses (fun pair member => pairs_inside (some.subset member))
      first second before
    exact ascending.le less found found'
  · obtain ⟨image, below, rfl⟩ := List.getElem_of_mem member
    obtain ⟨s, -, found⟩ := source image below
    have small := ascending.bounded _ (List.mem_of_getElem? found)
    rw [max_eq_right room.le] at small
    exact lt_max_of_lt_right small

theorem Reached.ascending (reached : ancestry.Reached) :
    ∃ numbers, ancestry.Ascending numbers := by
  induction reached with
  | @uniform count _ made =>
    obtain ⟨parents, filled, done⟩ := bind_eq_ok_iff.mp made
    obtain ⟨-, rfl⟩ := fill_eq_ok_iff.mp filled
    obtain rfl := Except.ok.inj done
    exact ⟨_, uniform_ascending count⟩
  | split => exact ⟨_, split_ascending _⟩
  | renumber => exact ⟨_, renumber_ascending _⟩
  | merge _ some mapped sized done before =>
    obtain ⟨numbers, ascending⟩ := before
    exact ascending.merge some mapped sized done

theorem eraseDups_sublist {β : Type} [BEq β] (items : List β) : items.eraseDups.Sublist items := by
  cases items with
  | nil => exact List.Sublist.refl []
  | cons first rest =>
    rw [List.eraseDups_cons]
    exact ((eraseDups_sublist (rest.filter fun other => !other == first)).trans
      List.filter_sublist).cons_cons first
termination_by items.length
decreasing_by exact Nat.lt_succ_of_le (List.length_filter_le _ _)

theorem Ascending.groups_flatten (ascending : ancestry.Ascending numbers) :
    ancestry.groups.flatten = List.range ancestry.size := by
  have number {s : Nat} {parent : Option Nat} (member : s ∈ ancestry.family parent) :
      ∃ number, parent = some number ∧ numbers[s]? = some number := by
    have found := mem_family_iff.mp member
    rw [ascending.parents_eq, List.getElem?_map] at found
    obtain ⟨number, here, same⟩ := Option.map_eq_some_iff.mp found
    exact ⟨number, same.symm, here⟩
  have distinct : ancestry.parents.eraseDups.Pairwise fun parent other =>
      parent ≠ other ∧ ∀ p ∈ parent, ∀ q ∈ other, p ≤ q := by
    refine (nodup_eraseDups _).and (List.Pairwise.sublist (eraseDups_sublist _) ?_)
    rw [ascending.parents_eq, List.pairwise_map]
    refine ascending.ordered.imp fun before p isParent q isOther => ?_
    rwa [← Option.some.inj isParent, ← Option.some.inj isOther]
  refine ancestry.groups_flatten_perm.eq_of_pairwise
    (fun s t _ _ below above => absurd below above.not_gt) ?_ List.pairwise_lt_range
  rw [groups, ← List.flatMap_def, List.pairwise_flatMap]
  refine ⟨fun parent _ => ancestry.pairwise_family parent, distinct.imp ?_⟩
  rintro parent other ⟨different, ordered⟩ s here t there
  obtain ⟨p, rfl, found⟩ := number here
  obtain ⟨q, rfl, found'⟩ := number there
  rcases Nat.lt_trichotomy s t with less | rfl | greater
  · exact less
  · exact absurd (found.symm.trans found') different
  · have same := Nat.le_antisymm (ordered p rfl q rfl) (ascending.le greater found' found)
    exact absurd (congrArg some same) different

theorem eq_range'_of_infix {count : Nat} (inside : group <:+: List.range count) :
    ∃ first, group = List.range' first group.length := by
  obtain ⟨before, after, whole⟩ := inside
  rw [List.range_eq_range'] at whole
  obtain ⟨upTo, -, start, -⟩ := List.range'_eq_append_iff.mp whole.symm
  obtain ⟨first, -, -, here⟩ := List.range'_eq_append_iff.mp start.symm
  rw [Nat.zero_add, Nat.mul_one] at here
  exact ⟨first, by rw [here, List.length_range']⟩

/-- Groups are runs of numbers that follow each other, and pairs are neighbours in a run. -/
structure Runs (ancestry : Ancestry) : Prop where
  whole : ancestry.groups.flatten = List.range ancestry.size
  run : ∀ group ∈ ancestry.groups, ∃ first, group = List.range' first group.length
  neighbours : ∀ pair ∈ ancestry.pairs, pair.2 = pair.1 + 1

theorem Ascending.runs (ascending : ancestry.Ascending numbers) : ancestry.Runs := by
  have whole := ascending.groups_flatten
  have run (group : List Nat) (isGroup : group ∈ ancestry.groups) :
      ∃ first, group = List.range' first group.length := by
    have inside := List.infix_of_mem_flatten isGroup
    rw [whole] at inside
    exact eq_range'_of_infix inside
  refine ⟨whole, run, fun pair member => ?_⟩
  obtain ⟨group, isGroup, paired⟩ := List.mem_flatMap.mp member
  obtain ⟨start, isRun⟩ := run group isGroup
  obtain ⟨n, first, second⟩ := mem_pairUp_iff.mp paired
  have place (i s : Nat) (found : group[i]? = some s) : s = start + i := by
    rw [isRun] at found
    obtain ⟨_, rfl⟩ := List.getElem?_eq_some_iff.mp found
    rw [List.getElem_range', Nat.one_mul]
  rw [place _ _ first, place _ _ second, Nat.add_assoc]

/-- No parent is written as the number that stands for a missing one. -/
theorem Ascending.parentCode_ne (ascending : ancestry.Ascending numbers)
    (counted : ancestry.size < Word.limit) :
    ∀ parent ∈ ancestry.parents, parentCode parent ≠ Word.greatest := by
  intro parent member
  rw [ascending.parents_eq] at member
  obtain ⟨number, present, rfl⟩ := List.mem_map.mp member
  have bound := ascending.bounded number present
  have table : Word.tableLimit ≤ Word.greatest := by decide
  have size : ancestry.size ≤ Word.greatest := Nat.le_sub_one_of_lt counted
  exact (lt_of_lt_of_le bound (max_le size table)).ne

theorem exists_merge {pairs : List (Nat × Nat)} (complete : ancestry.Complete)
    (some : pairs.Subperm ancestry.pairs) (room : ancestry.size < Word.tableLimit) :
    ∃ mapping new merged, collapseMap ancestry.size pairs = .ok mapping ∧
      imageSize mapping = .ok new ∧ ancestry.merge mapping new = .ok merged := by
  have disjoint := disjoint_of_subperm some
  have inside (pair : Nat × Nat) (member : pair ∈ pairs) := pairs_inside (some.subset member)
  have mapped := disjoint.collapseMap_eq inside room
  obtain ⟨collapses, -⟩ :=
    (disjoint.collapseMap_collapses inside fun _ => any_overflow).of_ok mapped
  have small := collapses.maps.new_le.trans_lt room
  obtain ⟨merged, done, -⟩ := delivers_never_iff.mp
    (merge_inherits rfl complete collapses.maps fun crowded => absurd small crowded.not_gt)
  exact ⟨_, _, merged, mapped, collapses.maps.imageSize_eq room, done⟩

/-- Groups are the families of an ancestry, and its pairs are disjoint pairs of siblings. Where
splitting, leaving unsplit and merging any of the pairs have led to, no parent is missing, none is
lower than one before it, groups are runs of numbers and pairs are neighbours; and it goes on, as any
of the pairs can be merged. -/
theorem families_in_runs : (∀ ancestry : Ancestry, ancestry.Grouped) ∧
    ∀ ancestry : Ancestry, ancestry.Reached →
      (∃ numbers, ancestry.Ascending numbers) ∧
      (ancestry.size < Word.limit →
        ∀ parent ∈ ancestry.parents, parentCode parent ≠ Word.greatest) ∧
      ancestry.Runs ∧
      ∀ pairs : List (Nat × Nat), pairs.Subperm ancestry.pairs → ancestry.size < Word.tableLimit →
        ∃ mapping new merged, collapseMap ancestry.size pairs = .ok mapping ∧
          imageSize mapping = .ok new ∧ ancestry.merge mapping new = .ok merged := by
  refine ⟨grouped, fun ancestry reached => ?_⟩
  obtain ⟨numbers, ascending⟩ := reached.ascending
  exact ⟨⟨numbers, ascending⟩, ascending.parentCode_ne, ascending.runs,
    fun pairs some room => exists_merge reached.complete some room⟩

/-- Three substates doubled, with the two in the middle merged again. -/
def thinnedAncestry : Ancestry := ⟨[some 0, some 0, some 1, some 2, some 2]⟩

theorem thinnedAncestry_reached : thinnedAncestry.Reached := by
  have made : Ancestry.uniform 3 = .ok ⟨[some 0, some 0, some 0]⟩ := by decide
  have mapped : collapseMap 6 [(2, 3)] = .ok [0, 1, 2, 2, 3, 4] := by decide
  have sized : imageSize [0, 1, 2, 2, 3, 4] = .ok 5 := by decide
  have chosen : [(2, 3)].Subperm (Ancestry.split ⟨[some 0, some 0, some 0]⟩).pairs :=
    List.singleton_subperm_iff.mpr (by decide)
  exact .merge (.split (.uniform made)) chosen mapped sized (by decide)

/-- The substate in the middle is alone, the others are pairs of neighbours, and all of these can be
merged at once. Siblings that are not next to each other are grouped too, but not in a run. -/
theorem thinnedAncestry_in_runs :
    thinnedAncestry.groups = [[0, 1], [2], [3, 4]] ∧ thinnedAncestry.pairs = [(0, 1), (3, 4)] ∧
    thinnedAncestry.Runs ∧ thinnedAncestry.Grouped ∧
    (∃ mapping new merged, collapseMap 5 [(0, 1), (3, 4)] = .ok mapping ∧
      imageSize mapping = .ok new ∧ thinnedAncestry.merge mapping new = .ok merged) ∧
    (⟨[some 0, some 1, some 0]⟩ : Ancestry).Grouped ∧
    (⟨[some 0, some 1, some 0]⟩ : Ancestry).groups = [[0, 2], [1]] := by
  obtain ⟨grouped, reached⟩ := families_in_runs
  obtain ⟨-, -, runs, merges⟩ := reached thinnedAncestry thinnedAncestry_reached
  exact ⟨by decide, by decide, runs, grouped _, merges [(0, 1), (3, 4)] (.refl _) (by decide),
    grouped _, by decide⟩

end Ancestry

end LatentGrammar
