import LatentGrammar.Proofs.Schedule.Merges

/-! How merged substates are numbered. Disjoint pairs of substates are classes of two, and all other
substates classes of one. The classes are numbered in the order of their lowest members, without a
gap, whichever way round the pairs are written and wherever their substates stand. -/

namespace LatentGrammar

variable {α : Type} {allowed : Fault → Prop} {pairs : List (Nat × Nat)} {size s t : Nat}

/-- The substates are the same, or form a pair. -/
def Together (pairs : List (Nat × Nat)) (s t : Nat) : Prop :=
  s = t ∨ (s, t) ∈ pairs ∨ (t, s) ∈ pairs

/-- No substate together with this one is lower. -/
def Lowest (pairs : List (Nat × Nat)) (s : Nat) : Prop := ∀ t, Together pairs t s → s ≤ t

/-- The lowest substate together with a given one. -/
def leader (pairs : List (Nat × Nat)) (s : Nat) : Nat :=
  match pairs.find? fun pair => max pair.1 pair.2 == s with
  | some pair => min pair.1 pair.2
  | none => s

theorem leader_cases (pairs : List (Nat × Nat)) (s : Nat) :
    (∀ pair ∈ pairs, max pair.1 pair.2 ≠ s) ∧ leader pairs s = s ∨
      ∃ pair ∈ pairs, max pair.1 pair.2 = s ∧ leader pairs s = min pair.1 pair.2 := by
  unfold leader
  cases found : pairs.find? fun pair => max pair.1 pair.2 == s with
  | none => exact .inl ⟨by simpa using List.find?_eq_none.mp found, rfl⟩
  | some pair =>
    exact .inr ⟨pair, List.mem_of_find?_eq_some found, by simpa using List.find?_some found, rfl⟩

theorem leader_le (pairs : List (Nat × Nat)) (s : Nat) : leader pairs s ≤ s := by
  rcases leader_cases pairs s with ⟨-, same⟩ | ⟨pair, -, greater, lower⟩ <;> omega

namespace DisjointPairs

variable (disjoint : DisjointPairs pairs)

include disjoint

theorem eq_of_common {one two : Nat × Nat} (first : one ∈ pairs) (second : two ∈ pairs)
    (inOne : s = one.1 ∨ s = one.2) (inTwo : s = two.1 ∨ s = two.2) : one = two := by
  by_contra different
  have symmetric : Std.Symm Apart := ⟨fun _ _ => Apart.symm⟩
  obtain ⟨a, b, c, d⟩ := disjoint.apart.forall first second different
  rcases inOne with rfl | rfl <;> rcases inTwo with same | same <;> contradiction

theorem leader_eq_min {pair : Nat × Nat} (member : pair ∈ pairs) (inside : s = pair.1 ∨ s = pair.2) :
    leader pairs s = min pair.1 pair.2 := by
  rcases leader_cases pairs s with ⟨never, same⟩ | ⟨other, present, greater, lower⟩
  · have notGreater := never pair member
    omega
  · obtain rfl := disjoint.eq_of_common member present inside (by omega)
    exact lower

theorem leader_leader (s : Nat) : leader pairs (leader pairs s) = leader pairs s := by
  rcases leader_cases pairs s with ⟨-, same⟩ | ⟨pair, member, -, lower⟩
  · rw [same, same]
  · rw [lower, disjoint.leader_eq_min member (by omega)]

theorem leader_eq_iff : leader pairs s = leader pairs t ↔ Together pairs s t := by
  constructor
  · intro same
    have paired {pair : Nat × Nat} {low high : Nat} (member : pair ∈ pairs)
        (lower : min pair.1 pair.2 = low) (greater : max pair.1 pair.2 = high) :
        (low, high) ∈ pairs ∨ (high, low) ∈ pairs := by
      rcases Nat.le_total pair.1 pair.2 with ordered | ordered
      · left
        rwa [show (low, high) = pair from Prod.ext (by simpa [ordered] using lower.symm)
          (by simpa [ordered] using greater.symm)]
      · right
        rwa [show (high, low) = pair from Prod.ext (by simpa [ordered] using greater.symm)
          (by simpa [ordered] using lower.symm)]
    rcases leader_cases pairs s with ⟨-, own⟩ | ⟨one, first, greater, lower⟩
    · rcases leader_cases pairs t with ⟨-, own'⟩ | ⟨two, second, greater', lower'⟩
      · exact .inl (own.symm.trans (same.trans own'))
      · exact .inr (paired second (by omega) greater')
    · rcases leader_cases pairs t with ⟨-, own'⟩ | ⟨two, second, greater', lower'⟩
      · exact .inr (paired first (by omega) greater).symm
      · obtain rfl := disjoint.eq_of_common (s := min one.1 one.2) first second (by omega) (by omega)
        exact .inl (greater.symm.trans greater')
  · rintro (rfl | member | member)
    · rfl
    · rw [disjoint.leader_eq_min member (.inl rfl), disjoint.leader_eq_min member (.inr rfl)]
    · rw [disjoint.leader_eq_min member (.inl rfl), disjoint.leader_eq_min member (.inr rfl)]

/-- Those that lead themselves are the lowest of their classes. -/
theorem lowest_iff : Lowest pairs s ↔ leader pairs s = s := by
  constructor
  · intro lowest
    exact Nat.le_antisymm (leader_le pairs s)
      (lowest _ (disjoint.leader_eq_iff.mp (disjoint.leader_leader s)))
  · intro own t together
    rw [← own, ← disjoint.leader_eq_iff.mpr together]
    exact leader_le pairs t

/-- The greater substate of each pair is sent to the smaller one, and no other is sent anywhere. -/
theorem foldlM_collapsePair_eq (targets : List Nat)
    (inside : ∀ pair ∈ pairs, pair.1 < targets.length ∧ pair.2 < targets.length) :
    ∃ next, pairs.foldlM collapsePair targets = .ok next ∧ next.length = targets.length ∧
      (∀ pair ∈ pairs, next[max pair.1 pair.2]? = some (min pair.1 pair.2)) ∧
      ∀ n, (∀ pair ∈ pairs, max pair.1 pair.2 ≠ n) → next[n]? = targets[n]? := by
  induction pairs generalizing targets with
  | nil => exact ⟨targets, rfl, rfl, fun _ absent => absurd absent List.not_mem_nil, fun _ _ => rfl⟩
  | cons pair rest ih =>
    obtain ⟨apart, restApart⟩ := List.pairwise_cons.mp disjoint.apart
    obtain ⟨here, later⟩ := List.forall_mem_cons.mp inside
    have below : max pair.1 pair.2 < targets.length := by omega
    have stepped : collapsePair targets pair =
        .ok (targets.set (max pair.1 pair.2) (min pair.1 pair.2)) := by
      simp [collapsePair, fetch_eq_ok_iff.mpr (List.getElem?_eq_getElem below)]
    obtain ⟨next, done, length, sent, kept⟩ :=
      ih ⟨fun pair member => disjoint.distinct pair (List.mem_cons_of_mem _ member), restApart⟩
        (targets.set (max pair.1 pair.2) (min pair.1 pair.2)) (by simpa using later)
    refine ⟨next, ?_, by simpa using length, List.forall_mem_cons.mpr ⟨?_, sent⟩, fun n never => ?_⟩
    · rw [List.foldlM_cons, stepped]
      exact done
    · rw [kept _ fun other member => ?_, List.getElem?_set_self below]
      obtain ⟨a, b, c, d⟩ := apart other member
      omega
    · obtain ⟨different, others⟩ := List.forall_mem_cons.mp never
      rw [kept n others, List.getElem?_set_ne different]

theorem collapseTargets_eq_leaders (inside : ∀ pair ∈ pairs, pair.1 < size ∧ pair.2 < size) :
    collapseTargets size pairs = .ok ((List.range size).map (leader pairs)) := by
  obtain ⟨targets, done, length, sent, kept⟩ :=
    disjoint.foldlM_collapsePair_eq (List.range size) (by simpa using inside)
  rw [collapseTargets_eq, done]
  congr 1
  apply List.ext_getElem?
  intro n
  by_cases below : n < size
  · rw [List.getElem?_map, List.getElem?_range below, Option.map_some]
    rcases leader_cases pairs n with ⟨never, same⟩ | ⟨pair, member, greater, lower⟩
    · rw [kept n never, List.getElem?_range below, same]
    · rw [← greater, sent pair member, greater, lower]
  · rw [List.getElem?_eq_none (by simpa [length] using below), List.getElem?_eq_none (by simpa using below)]

end DisjointPairs

/-- The number of classes with a lower lowest member than the class of a substate. -/
def classNumber (pairs : List (Nat × Nat)) (s : Nat) : Nat :=
  Nat.count (fun t => leader pairs t = t) (leader pairs s)

namespace DisjointPairs

variable (disjoint : DisjointPairs pairs)

include disjoint

/-- From any substate on, the numbers given out are those of the classes. -/
theorem numberTargets_eq (start count : Nat) :
    numberTargets ((List.range start).map (classNumber pairs))
        (Nat.count (fun t => leader pairs t = t) start)
        ((List.range' start count).map (leader pairs)) =
      (List.range' start count).map (classNumber pairs) := by
  induction count generalizing start with
  | zero => rfl
  | succ count ih =>
    have later := ih (start + 1)
    rw [List.range_succ, List.map_append, List.map_singleton, Nat.count_succ] at later
    rw [List.range'_succ, List.map_cons, List.map_cons, numberTargets, List.length_map,
      List.length_range]
    by_cases own : leader pairs start = start
    · have number : classNumber pairs start = Nat.count (fun t => leader pairs t = t) start := by
        rw [classNumber, own]
      rw [if_pos own, number] at later
      rw [if_pos (by simpa using own), later, number]
    · have below : leader pairs start < start := Nat.lt_of_le_of_ne (leader_le pairs start) own
      have number : classNumber pairs (leader pairs start) = classNumber pairs start := by
        rw [classNumber, classNumber, disjoint.leader_leader]
      rw [if_neg own, Nat.add_zero] at later
      rw [if_neg (by simpa using own)]
      simp only [List.getElem?_map, List.getElem?_range below, Option.map_some, Option.getD_some,
        number, later]

theorem collapseMap_eq (inside : ∀ pair ∈ pairs, pair.1 < size ∧ pair.2 < size)
    (room : size < Word.tableLimit) :
    collapseMap size pairs = .ok ((List.range size).map (classNumber pairs)) := by
  have checked : checkSizes [size] = .ok () :=
    checkSizes_eq_ok_iff.mpr (by simpa using room)
  have numbers := disjoint.numberTargets_eq 0 size
  rw [List.range_zero, List.map_nil, Nat.count_zero, ← List.range_eq_range'] at numbers
  rw [collapseMap, checked, ok_bind, disjoint.collapseTargets_eq_leaders inside, ok_bind, numbers]
  rfl

end DisjointPairs

/-- A mapping whose images are the numbers below `new`, all of them. -/
structure MapsOnto (mapping : List Nat) (old new : Nat) : Prop where
  length_eq : mapping.length = old
  onto : ∀ image, image ∈ mapping ↔ image < new

/-- The mapping of `size` substates that merges the pairs: every pair takes one substate away, just
the substates together share an image, and classes are numbered by their lowest members. -/
structure Collapses (mapping : List Nat) (size : Nat) (pairs : List (Nat × Nat)) : Prop where
  fewer : pairs.length ≤ size
  maps : MapsOnto mapping size (size - pairs.length)
  kernel : ∀ (s t image image' : Nat), mapping[s]? = some image → mapping[t]? = some image' →
    (image = image' ↔ Together pairs s t)
  increasing : ∀ (s t image image' : Nat), mapping[s]? = some image → mapping[t]? = some image' →
    Lowest pairs s → Lowest pairs t → s < t → image < image'

/-- What is together with a substate that has an image has one too. -/
theorem Collapses.lt_of_together {mapping : List Nat} {image : Nat}
    (collapses : Collapses mapping size pairs)
    (inside : ∀ pair ∈ pairs, pair.1 < size ∧ pair.2 < size) (found : mapping[s]? = some image)
    (together : Together pairs t s) : t < mapping.length := by
  rcases together with rfl | member | member
  · exact (List.getElem?_eq_some_iff.mp found).1
  · exact collapses.maps.length_eq ▸ (inside _ member).1
  · exact collapses.maps.length_eq ▸ (inside _ member).2

namespace MapsOnto

variable {mapping : List Nat} {old new : Nat}

theorem mapsInto (maps : MapsOnto mapping old new) : MapsInto mapping old new :=
  ⟨maps.length_eq, fun image member => (maps.onto image).mp member⟩

theorem new_le (maps : MapsOnto mapping old new) : new ≤ old := by
  have distinct : List.range new ⊆ mapping := fun image member =>
    (maps.onto image).mpr (List.mem_range.mp member)
  have shorter := (List.nodup_range.subperm distinct).length_le
  rwa [List.length_range, maps.length_eq] at shorter

theorem imageSize_eq_word (maps : MapsOnto mapping old new) : imageSize mapping = word new := by
  unfold imageSize
  cases greatest : mapping.max? with
  | none =>
    cases new with
    | zero => rfl
    | succ new =>
      have member := (maps.onto 0).mpr new.succ_pos
      rw [List.max?_eq_none_iff.mp greatest] at member
      exact absurd member List.not_mem_nil
  | some image =>
    obtain ⟨member, largest⟩ := List.max?_eq_some_iff.mp greatest
    have below := (maps.onto image).mp member
    have last := largest (new - 1) ((maps.onto _).mpr (by omega))
    exact congrArg word (by omega)

theorem imageSize_eq (maps : MapsOnto mapping old new) (room : old < Word.tableLimit) :
    imageSize mapping = .ok new := by
  have words : Word.tableLimit < Word.limit := by decide
  rw [maps.imageSize_eq_word]
  exact word_eq_ok_iff.mpr ⟨(maps.new_le.trans_lt room).trans words, rfl⟩

end MapsOnto

theorem exists_count_eq (p : Nat → Prop) [DecidablePred p] {number limit : Nat}
    (below : number < Nat.count p limit) : ∃ n < limit, p n ∧ Nat.count p n = number := by
  induction limit with
  | zero => exact absurd below (by simp)
  | succ limit ih =>
    rw [Nat.count_succ] at below
    by_cases last : number < Nat.count p limit
    · obtain ⟨n, small, holds⟩ := ih last
      exact ⟨n, by omega, holds⟩
    · by_cases holds : p limit
      · rw [if_pos holds] at below
        exact ⟨limit, limit.lt_succ_self, holds, by omega⟩
      · rw [if_neg holds] at below
        omega

namespace DisjointPairs

variable (disjoint : DisjointPairs pairs)

include disjoint

theorem classNumber_eq_iff : classNumber pairs s = classNumber pairs t ↔ Together pairs s t := by
  rw [← disjoint.leader_eq_iff]
  constructor
  · exact Nat.count_injective (disjoint.leader_leader s) (disjoint.leader_leader t)
  · intro same
    rw [classNumber, classNumber, same]

theorem classNumbers_onto (image : Nat) :
    image ∈ (List.range size).map (classNumber pairs) ↔
      image < Nat.count (fun t => leader pairs t = t) size := by
  simp only [List.mem_map, List.mem_range]
  constructor
  · rintro ⟨s, below, rfl⟩
    exact Nat.count_strict_mono (disjoint.leader_leader s)
      (Nat.lt_of_le_of_lt (leader_le pairs s) below)
  · intro below
    obtain ⟨s, small, own, number⟩ := exists_count_eq _ below
    exact ⟨s, small, by rw [classNumber, own, number]⟩

/-- Disjoint pairs of substates that are there are collapsed, in whatever order and whichever way
round they are given. -/
theorem collapseMap_collapses (inside : ∀ pair ∈ pairs, pair.1 < size ∧ pair.2 < size)
    (crowded : Word.tableLimit ≤ size → allowed .overflow) :
    Delivers allowed (fun mapping => Collapses mapping size pairs ∧ size < Word.tableLimit)
      (collapseMap size pairs) := by
  by_cases room : size < Word.tableLimit
  · have mapped := disjoint.collapseMap_eq inside room
    have maps : MapsOnto ((List.range size).map (classNumber pairs)) size
        (Nat.count (fun t => leader pairs t = t) size) :=
      ⟨by simp, disjoint.classNumbers_onto⟩
    have count := collapseMap_imageSize disjoint mapped (maps.imageSize_eq room)
    have numbers {n image : Nat}
        (found : ((List.range size).map (classNumber pairs))[n]? = some image) :
        classNumber pairs n = image := by
      simp only [List.getElem?_map, Option.map_eq_some_iff] at found
      obtain ⟨same, here, rfl⟩ := found
      obtain ⟨-, rfl⟩ := List.getElem?_eq_some_iff.mp here
      simp
    rw [mapped]
    refine ⟨⟨by omega, ?_, fun s t image image' here there => ?_,
      fun s t image image' here there low low' below => ?_⟩, room⟩
    · rwa [show size - pairs.length = Nat.count (fun t => leader pairs t = t) size by omega]
    · rw [← numbers here, ← numbers there]
      exact disjoint.classNumber_eq_iff
    · have own := disjoint.lowest_iff.mp low
      have own' := disjoint.lowest_iff.mp low'
      rw [← numbers here, ← numbers there, classNumber, classNumber, own, own']
      exact Nat.count_strict_mono own below
  · rw [collapseMap, checkSizes, if_neg (by simpa using room)]
    exact crowded (Nat.le_of_not_lt room)

end DisjointPairs

/-- Every category's mapping merges the pairs selected for it. -/
structure Relabels (mappings : List (List Nat)) (substates : List Nat)
    (selected : List (SiblingPair α)) : Prop where
  length_eq : mappings.length = substates.length
  collapses : ∀ (state : Nat) mapping size, mappings[state]? = some mapping →
    substates[state]? = some size → Collapses mapping size (SiblingPair.pairsOf state selected)

theorem collapseMaps_relabels {substates : List Nat} {selected : List (SiblingPair α)}
    (disjoint : ∀ state, DisjointPairs (SiblingPair.pairsOf state selected))
    (inside : ∀ pair ∈ selected, ∀ size, substates[pair.state]? = some size →
      pair.first < size ∧ pair.second < size)
    (crowded : (∃ size ∈ substates, Word.tableLimit ≤ size) → allowed .overflow) :
    Delivers allowed (fun mappings => Relabels mappings substates selected ∧
        ∀ size ∈ substates, size < Word.tableLimit) (collapseMaps substates selected) := by
  have each (size state : Nat) (found : substates[state]? = some size) :
      Delivers allowed (fun mapping => substates[state]? = some size ∧
          Collapses mapping size (SiblingPair.pairsOf state selected) ∧ size < Word.tableLimit)
        (collapseMap size (SiblingPair.pairsOf state selected)) := by
    refine ((disjoint state).collapseMap_collapses (fun pair member => ?_)
      fun large => crowded ⟨size, List.mem_of_getElem? found, large⟩).mono
      fun mapping holds => ⟨found, holds⟩
    obtain ⟨candidate, chosen, rfl⟩ := List.mem_map.mp member
    obtain ⟨present, same⟩ := List.mem_filter.mp chosen
    obtain rfl : candidate.state = state := by simpa using same
    exact inside candidate present size found
  refine (Delivers.mapM_zipIdx fun size state found =>
    (each size state found).mono fun mapping holds => Exists.intro size holds).mono
    fun mappings mapped => ?_
  obtain ⟨length, all⟩ := mapped
  refine ⟨⟨length, fun state mapping size here found => ?_⟩, fun size member => ?_⟩
  · obtain ⟨again, same, collapses, -⟩ := all state mapping here
    cases found.symm.trans same
    exact collapses
  · obtain ⟨state, found⟩ := List.getElem?_of_mem member
    have below : state < mappings.length := by
      rw [length]
      exact (List.getElem?_eq_some_iff.mp found).1
    obtain ⟨again, same, -, room⟩ := all state _ (List.getElem?_eq_getElem below)
    cases found.symm.trans same
    exact room

end LatentGrammar
