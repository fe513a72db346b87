import LatentGrammar.Proofs.Merging.Numbering

namespace LatentGrammar

namespace Ancestry

variable {allowed : Fault → Prop} {ancestry : Ancestry} {mapping : List Nat} {old new : Nat}

/-- Every substate has a parent. -/
def Complete (ancestry : Ancestry) : Prop := none ∉ ancestry.parents

/-- The substate is the lowest of those with its image. -/
def First (mapping : List Nat) (s image : Nat) : Prop :=
  mapping[s]? = some image ∧ ∀ t < s, mapping[t]? ≠ some image

/-- What merging makes of an ancestry. -/
structure Inherits (merged ancestry : Ancestry) (mapping : List Nat) (new : Nat) : Prop where
  fits : merged.Fits new
  complete : merged.Complete
  lowest : ∀ s image, First mapping s image → merged.parents[image]? = ancestry.parents[s]?

theorem adopt_delivers {parents merged : List (Option Nat)} {target s parent : Nat}
    (inside : target < merged.length) (found : parents[s]? = some (some parent)) :
    Delivers allowed (fun next => next.length = merged.length ∧
        (∀ image, image ≠ target → next[image]? = merged[image]?) ∧
        (∀ other : Nat, merged[target]? = some (some other) → next[target]? = some (some other)) ∧
        (merged[target]? = some none → next[target]? = some (some parent)))
      (adopt parents merged (target, s)) := by
  have here := List.getElem?_eq_getElem inside
  simp only [adopt, fetch_eq_ok_iff.mpr here, ok_bind]
  cases entry : merged[target] with
  | some other =>
    rw [entry] at here
    exact ⟨rfl, fun _ _ => rfl, fun _ same => same, fun unset => by simp [here] at unset⟩
  | none =>
    rw [entry] at here
    simp only [fetch_eq_ok_iff.mpr found, ok_bind]
    exact ⟨List.length_set, fun image other => List.getElem?_set_ne other.symm,
      fun other same => by simp [here] at same, fun _ => List.getElem?_set_self inside⟩

/-- Entries that are set stay; an unset one takes the parent of the first substate that goes there. -/
theorem foldlM_adopt {parents : List (Option Nat)} (merged : List (Option Nat)) (start : Nat)
    (complete : none ∉ parents)
    (inside : start + mapping.length ≤ parents.length)
    (below : ∀ image ∈ mapping, image < merged.length) :
    Delivers allowed (fun next => next.length = merged.length ∧
        (∀ image parent : Nat, merged[image]? = some (some parent) →
          next[image]? = some (some parent)) ∧
        ∀ s image, First mapping s image → merged[image]? = some none →
          next[image]? = parents[start + s]?)
      ((mapping.zipIdx start).foldlM (adopt parents) merged) := by
  induction mapping generalizing merged start with
  | nil => exact ⟨rfl, fun _ _ found => found, fun s image first => by simp [First] at first⟩
  | cons target rest ih =>
    obtain ⟨here, later⟩ := List.forall_mem_cons.mp below
    rw [List.length_cons] at inside
    obtain ⟨entry, known⟩ : ∃ entry, parents[start]? = some entry :=
      ⟨_, List.getElem?_eq_getElem (by omega)⟩
    obtain ⟨parent, rfl⟩ : ∃ parent, entry = some parent :=
      Option.ne_none_iff_exists'.mp fun unset =>
        complete (unset ▸ List.mem_of_getElem? known)
    rw [List.zipIdx_cons, List.foldlM_cons]
    refine (adopt_delivers here known).bind fun next adopted => ?_
    obtain ⟨length, others, kept, filled⟩ := adopted
    refine (ih next (start + 1) (by omega) (by rwa [length])).mono fun final rest => ?_
    obtain ⟨same, stay, taken⟩ := rest
    refine ⟨same.trans length, ?_, ?_⟩
    · intro image other found
      by_cases isTarget : image = target
      · subst isTarget
        exact stay image other (kept other found)
      · exact stay image other ((others image isTarget).trans found)
    · rintro s image ⟨found, before⟩ unset
      cases s with
      | zero =>
        obtain rfl : target = image := by simpa using found
        rw [stay target parent (filled unset), Nat.add_zero, known]
      | succ s =>
        have isOther : image ≠ target := by
          rintro rfl
          exact before 0 s.succ_pos rfl
        rw [taken s image ⟨found, fun t small => before (t + 1) (by omega)⟩
          ((others image isOther).trans unset), Nat.add_right_comm, Nat.add_assoc]

theorem exists_first {image : Nat} (member : image ∈ mapping) : ∃ s, First mapping s image := by
  have some : ∃ s, mapping[s]? = Option.some image := List.getElem?_of_mem member
  classical
  exact ⟨Nat.find some, Nat.find_spec some, fun t below => Nat.find_min some below⟩

theorem merge_inherits (fits : ancestry.Fits old) (complete : ancestry.Complete)
    (maps : MapsOnto mapping old new) (crowded : Word.tableLimit ≤ new → allowed .overflow) :
    Delivers allowed (Inherits · ancestry mapping new) (ancestry.merge mapping new) := by
  have known : ancestry.parents.length = old := fits
  by_cases room : new < Word.tableLimit
  · unfold merge
    rw [fill_eq_ok_iff.mpr ⟨room, rfl⟩, ok_bind]
    refine (foldlM_adopt _ 0 complete (by rw [maps.length_eq, known, Nat.zero_add])
      fun image member => by simpa using (maps.onto image).mp member).bind
      fun parents adopted => ?_
    obtain ⟨length, -, taken⟩ := adopted
    rw [List.length_replicate] at length
    have lowest (s image : Nat) (first : First mapping s image) :
        parents[image]? = ancestry.parents[s]? := by
      have below := (maps.onto image).mp (List.mem_of_getElem? first.1)
      have same := taken s image first (by simp [below])
      rwa [Nat.zero_add] at same
    refine ⟨length, fun unset => ?_, lowest⟩
    obtain ⟨image, found⟩ := List.getElem?_of_mem unset
    have below : image < new := length ▸ (List.getElem?_eq_some_iff.mp found).1
    obtain ⟨s, first⟩ := exists_first ((maps.onto image).mpr below)
    have parent := (lowest s image first).symm.trans found
    exact complete (List.mem_of_getElem? parent)
  · unfold merge
    rw [fill, if_neg room]
    exact crowded (Nat.le_of_not_lt room)

theorem first_of_lowest {pairs : List (Nat × Nat)} {size s image : Nat}
    (collapses : Collapses mapping size pairs) (lowest : Lowest pairs s)
    (found : mapping[s]? = some image) : First mapping s image := by
  refine ⟨found, fun t below same => ?_⟩
  have together := (collapses.kernel t s image image same found).mp rfl
  exact absurd (lowest t together) (Nat.not_le.mpr below)

theorem lowest_of_first {pairs : List (Nat × Nat)} {size s image : Nat}
    (collapses : Collapses mapping size pairs)
    (inside : ∀ pair ∈ pairs, pair.1 < size ∧ pair.2 < size) (first : First mapping s image) :
    Lowest pairs s := by
  intro t together
  have found := List.getElem?_eq_getElem (collapses.lt_of_together inside first.1 together)
  have same := (collapses.kernel t s _ _ found first.1).mpr together
  by_contra lower
  exact first.2 t (Nat.not_le.mp lower) (found.trans (congrArg Option.some same))

/-- A single substate that nothing is merged with keeps its ancestry. -/
theorem Inherits.eq_of_single {result : Ancestry} (inherits : result.Inherits ancestry mapping 1)
    (collapses : Collapses mapping 1 []) (fits : ancestry.Fits 1) : result = ancestry := by
  have single : result.parents.length = 1 := inherits.fits
  have before : ancestry.parents.length = 1 := fits
  obtain ⟨image, rfl⟩ := List.length_eq_one_iff.mp collapses.maps.length_eq
  obtain rfl : image = 0 := by simpa using (collapses.maps.onto image).mp (by simp)
  have same := inherits.lowest 0 0 ⟨rfl, fun t below => absurd below (Nat.not_lt_zero t)⟩
  obtain ⟨parents⟩ := result
  obtain ⟨old⟩ := ancestry
  obtain ⟨parent, rfl⟩ := List.length_eq_one_iff.mp single
  obtain ⟨other, rfl⟩ := List.length_eq_one_iff.mp before
  simpa using same

/-- Two siblings next to each other, with an even number of siblings before them. -/
def Neighbours (ancestry : Ancestry) (first second : Nat) : Prop :=
  ∃ parent n, (ancestry.family parent)[2 * n]? = some first ∧
    (ancestry.family parent)[2 * n + 1]? = some second

theorem mem_pairUp_iff {members : List Nat} {first second : Nat} :
    (first, second) ∈ pairUp members ↔
      ∃ n, members[2 * n]? = some first ∧ members[2 * n + 1]? = some second := by
  induction members using pairUp.induct with
  | case1 one two rest ih =>
    rw [pairUp, List.mem_cons, ih]
    constructor
    · rintro (same | ⟨n, found, next⟩)
      · obtain ⟨rfl, rfl⟩ := Prod.mk.inj same
        exact ⟨0, rfl, rfl⟩
      · exact ⟨n + 1, found, next⟩
    · rintro ⟨n, found, next⟩
      cases n with
      | zero =>
        obtain rfl : one = first := by simpa using found
        obtain rfl : two = second := by simpa using next
        exact .inl rfl
      | succ n => exact .inr ⟨n, found, next⟩
  | case2 members short =>
    rw [pairUp.eq_2 members short]
    refine ⟨fun absent => absurd absent List.not_mem_nil, ?_⟩
    rintro ⟨n, found, next⟩
    rcases members with _ | ⟨one, _ | ⟨two, rest⟩⟩
    · simp at found
    · simp at next
    · exact absurd rfl (short one two rest)

theorem mem_pairs_iff {first second : Nat} :
    (first, second) ∈ ancestry.pairs ↔ ancestry.Neighbours first second := by
  simp only [pairs, groups, List.mem_flatMap, List.mem_map, List.mem_eraseDups]
  constructor
  · rintro ⟨_, ⟨parent, -, rfl⟩, member⟩
    exact ⟨parent, mem_pairUp_iff.mp member⟩
  · rintro ⟨parent, n, found, next⟩
    have present := List.mem_of_getElem? (mem_family_iff.mp (List.mem_of_getElem? found))
    exact ⟨_, ⟨parent, present, rfl⟩, mem_pairUp_iff.mpr ⟨n, found, next⟩⟩

/-- Ancestries of categories that were never split, and what splitting, leaving unsplit and merging
pairs of siblings make of them. -/
inductive Reached : Ancestry → Prop where
  | uniform {count : Nat} {ancestry : Ancestry} (made : Ancestry.uniform count = .ok ancestry) :
      Reached ancestry
  | split {ancestry : Ancestry} (before : Reached ancestry) : Reached ancestry.split
  | renumber {ancestry : Ancestry} (before : Reached ancestry) : Reached ancestry.renumber
  | merge {ancestry merged : Ancestry} {pairs : List (Nat × Nat)} {mapping : List Nat} {new : Nat}
      (before : Reached ancestry) (some : pairs.Subperm ancestry.pairs)
      (mapped : collapseMap ancestry.size pairs = .ok mapping)
      (sized : imageSize mapping = .ok new) (done : ancestry.merge mapping new = .ok merged) :
      Reached merged

theorem disjoint_of_subperm {pairs : List (Nat × Nat)} (some : pairs.Subperm ancestry.pairs) :
    DisjointPairs pairs := by
  refine ⟨fun pair member => ancestry.pairs_disjoint.distinct pair (some.subset member), ?_⟩
  obtain ⟨others, perm, sub⟩ := some
  exact (ancestry.pairs_disjoint.apart.sublist sub).perm perm Apart.symm

/-- Merging some of its pairs collapses an ancestry. -/
theorem collapses_of_subperm {pairs : List (Nat × Nat)} (some : pairs.Subperm ancestry.pairs)
    (mapped : collapseMap ancestry.size pairs = .ok mapping) (sized : imageSize mapping = .ok new) :
    Collapses mapping ancestry.size pairs ∧ ancestry.size < Word.tableLimit ∧
      MapsOnto mapping ancestry.size new := by
  have disjoint := disjoint_of_subperm some
  obtain ⟨collapses, room⟩ :=
    (disjoint.collapseMap_collapses (fun pair member => pairs_inside (some.subset member))
      fun _ => any_overflow).of_ok mapped
  have count := collapseMap_imageSize disjoint mapped sized
  refine ⟨collapses, room, ?_⟩
  rw [show new = ancestry.size - pairs.length by omega]
  exact collapses.maps

theorem Reached.complete (reached : ancestry.Reached) : ancestry.Complete := by
  induction reached with
  | uniform made =>
    obtain ⟨parents, filled, done⟩ := bind_eq_ok_iff.mp made
    obtain ⟨-, rfl⟩ := fill_eq_ok_iff.mp filled
    obtain rfl := Except.ok.inj done
    simp [Complete]
  | split => simp [Complete, Ancestry.split]
  | renumber => simp [Complete, Ancestry.renumber]
  | merge _ some mapped sized done complete =>
    obtain ⟨-, -, maps⟩ := collapses_of_subperm some mapped sized
    exact ((merge_inherits rfl complete maps fun _ => any_overflow).of_ok done).complete

end Ancestry

end LatentGrammar
