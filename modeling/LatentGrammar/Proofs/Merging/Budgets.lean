import Mathlib.Algebra.Ring.Nat
import Mathlib.Order.Monotone.Basic
import LatentGrammar.Merging

namespace LatentGrammar

namespace Binary64

def isNegative (x : Binary64) : Bool := Word.signBit ≤ x.bits.toNat

/-- What exponent and fraction stand for, in units of the smallest positive number. The formula
takes infinity beyond all finite numbers, and what is no number beyond infinity. -/
def unsigned (bits : Nat) : Nat :=
  let exponent := bits / 2 ^ 52
  let fraction := bits % 2 ^ 52
  if exponent = 0 then fraction else (2 ^ 52 + fraction) * 2 ^ (exponent - 1)

def magnitude (x : Binary64) : Nat := unsigned (x.bits.toNat % Word.signBit)

/-- The total order of IEEE 754: negative patterns by falling magnitude, then the others by rising
magnitude. Negative zero stands right before zero, and what is no number beyond the infinity of its
sign. -/
def AtMost (x y : Binary64) : Prop :=
  if x.isNegative then y.isNegative → y.magnitude ≤ x.magnitude
  else ¬y.isNegative ∧ x.magnitude ≤ y.magnitude

theorem unsigned_lt_succ (bits : Nat) : unsigned bits < unsigned (bits + 1) := by
  unfold unsigned
  by_cases carries : bits % 2 ^ 52 + 1 < 2 ^ 52
  · have exponent : (bits + 1) / 2 ^ 52 = bits / 2 ^ 52 := by omega
    have fraction : (bits + 1) % 2 ^ 52 = bits % 2 ^ 52 + 1 := by omega
    rw [exponent, fraction]
    dsimp only
    split
    · exact Nat.lt_succ_self _
    · exact Nat.mul_lt_mul_of_pos_right (by omega) (Nat.two_pow_pos _)
  · -- the fraction is full, and the next number begins the next exponent
    have exponent : (bits + 1) / 2 ^ 52 = bits / 2 ^ 52 + 1 := by omega
    have fraction : (bits + 1) % 2 ^ 52 = 0 := by omega
    have full : bits % 2 ^ 52 = 2 ^ 52 - 1 := by omega
    rw [exponent, fraction, full]
    dsimp only
    rw [if_neg (Nat.succ_ne_zero _), Nat.add_sub_cancel]
    split
    · rename_i zero
      rw [zero]
      decide
    · rename_i positive
      obtain ⟨power, same⟩ := Nat.exists_eq_succ_of_ne_zero positive
      rw [same, Nat.succ_sub_one]
      calc (2 ^ 52 + (2 ^ 52 - 1)) * 2 ^ power
          < (2 * 2 ^ 52) * 2 ^ power :=
            Nat.mul_lt_mul_of_pos_right (by decide) (Nat.two_pow_pos _)
        _ = 2 ^ 52 * 2 ^ (power + 1) := by rw [Nat.pow_succ 2 power]; omega

theorem magnitude_le_iff {x y : Binary64} :
    x.magnitude ≤ y.magnitude ↔ x.bits.toNat % Word.signBit ≤ y.bits.toNat % Word.signBit :=
  (strictMono_nat_of_lt_succ unsigned_lt_succ).le_iff_le

end Binary64

namespace TotalOrder

variable {δ : Type} [TotalOrder δ]

def AtMost (x y : δ) : Prop := key x ≤ key y

instance (x y : δ) : Decidable (AtMost x y) := inferInstanceAs (Decidable (key x ≤ key y))

/-- Keys put patterns into the total order of IEEE 754. -/
theorem atMost_iff {x y : Binary64} : AtMost x y ↔ x.AtMost y := by
  have wide (x : Binary64) : x.bits.toNat < 2 * Word.signBit := x.bits.toNat_lt
  have one := wide x
  have two := wide y
  simp only [AtMost, key, Binary64.AtMost, Binary64.isNegative, Binary64.magnitude_le_iff,
    decide_eq_true_eq]
  generalize x.bits.toNat = first at *
  generalize y.bits.toNat = second at *
  have folded {bits : Nat} (wide : bits < 2 * Word.signBit) :
      bits % Word.signBit = if bits < Word.signBit then bits else bits - Word.signBit := by
    split
    · exact Nat.mod_eq_of_lt ‹_›
    · rw [Nat.mod_eq_sub_mod (by omega), Nat.mod_eq_of_lt (by omega)]
  rw [folded one, folded two]
  split <;> split <;> split <;> omega

/-- From a negative NaN over infinities, ones and zeros to a positive NaN. -/
example : [(⟨0xFFF8000000000000⟩ : Binary64), ⟨0xFFF0000000000000⟩, ⟨0xBFF0000000000000⟩,
    ⟨0x8000000000000000⟩, ⟨0⟩, ⟨0x3FF0000000000000⟩, ⟨0x7FF0000000000000⟩,
    ⟨0x7FF8000000000000⟩].Pairwise fun x y => key x < key y := by decide

end TotalOrder

namespace SiblingPair

open TotalOrder (AtMost key atMost_iff)

variable {α : Type} [Scalar α] {δ : Type} [TotalOrder δ]

/-- How many of `size` candidates a share of them is: the part between zero and one that is nearest
to the share, times their number, rounded down, and at most all. -/
def kept (share : α) (size : Nat) : Nat :=
  let part := if share < 0 then 0 else if 1 < share then 1 else share
  min (Scalar.floorNat ((size : α) * part)) size

/-- Of two numbered candidates the first is preferred: the delta of the other is at most its delta,
and if they are equal, then it comes earlier. -/
def Preferred (a b : SiblingPair δ × Nat) : Prop :=
  AtMost b.1.delta a.1.delta ∧ (AtMost a.1.delta b.1.delta → a.2 < b.2)

instance (a b : SiblingPair δ × Nat) : Decidable (Preferred a b) :=
  inferInstanceAs (Decidable (_ ∧ (_ → _)))

/-- Some of the candidates are the best ones that a budget allows: together with those that are left
they are all candidates, numbered in their order, and each of them is preferred to those behind it. -/
inductive Cheapest (share : α) (candidates : List (SiblingPair δ)) : List (SiblingPair δ) → Prop where
  | intro (taken left : List (SiblingPair δ × Nat))
      (all : (taken ++ left).Perm candidates.zipIdx)
      (ranked : (taken ++ left).Pairwise Preferred)
      (length_eq : taken.length = kept share candidates.length) :
      Cheapest share candidates (taken.map Prod.fst)

variable {share : α} {candidates chosen other : List (SiblingPair δ)}

theorem Preferred.asymm {a b : SiblingPair δ × Nat} (one : Preferred a b)
    (two : Preferred b a) : False :=
  Nat.lt_asymm (one.2 two.1) (two.2 one.1)

/-- A ranking leaves no choice. -/
theorem Cheapest.unique (one : Cheapest share candidates chosen)
    (two : Cheapest share candidates other) : chosen = other := by
  obtain ⟨taken, left, all, ranked, length⟩ := one
  obtain ⟨taken', left', all', ranked', length'⟩ := two
  have same : taken ++ left = taken' ++ left' :=
    (all.trans all'.symm).eq_of_pairwise (fun _ _ _ _ one two => (one.asymm two).elim)
      ranked ranked'
  rw [(List.append_inj same (length.trans length'.symm)).1]

theorem Cheapest.rejected (cheapest : Cheapest share candidates chosen) :
    ∃ rejected, (chosen ++ rejected).Perm candidates ∧
      ∀ a ∈ chosen, ∀ b ∈ rejected, AtMost b.delta a.delta := by
  obtain ⟨taken, left, all, ranked, -⟩ := cheapest
  refine ⟨left.map Prod.fst, ?_, fun a taken b left => ?_⟩
  · rw [← List.map_append]
    simpa using all.map Prod.fst
  · obtain ⟨a, member, rfl⟩ := List.mem_map.mp taken
    obtain ⟨b, member', rfl⟩ := List.mem_map.mp left
    exact ((List.pairwise_append.mp ranked).2.2 a member b member').1

theorem Cheapest.length_eq (cheapest : Cheapest share candidates chosen) :
    chosen.length = kept share candidates.length := by
  obtain ⟨taken, left, -, -, length⟩ := cheapest
  rw [List.length_map, length]

theorem preferred_of_zipIdxLE {a b : SiblingPair δ × Nat} (different : a.2 ≠ b.2)
    (before : List.zipIdxLE (fun a b => decide (key b.delta ≤ key a.delta)) a b = true) :
    Preferred a b := by
  unfold List.zipIdxLE at before
  split at before
  · rename_i less
    refine ⟨of_decide_eq_true less, fun equal => ?_⟩
    rw [if_pos (decide_eq_true (p := key _ ≤ key _) equal)] at before
    exact Nat.lt_of_le_of_ne (of_decide_eq_true before) different
  · cases before

theorem cheapest_cheapest (share : α) (candidates : List (SiblingPair δ)) :
    Cheapest share candidates (cheapest share candidates) := by
  let before (a b : SiblingPair δ) : Bool := key b.delta ≤ key a.delta
  let numbered := candidates.zipIdx.mergeSort (List.zipIdxLE before)
  have sorted : numbered.map Prod.fst = candidates.mergeSort before := List.mergeSort_zipIdx
  have all : numbered.Perm candidates.zipIdx := List.mergeSort_perm _ _
  have ordered : numbered.Pairwise fun a b => List.zipIdxLE before a b = true := by
    apply List.pairwise_mergeSort
    · refine List.zipIdxLE_trans fun a b c one two => ?_
      exact decide_eq_true (Int.le_trans (of_decide_eq_true two) (of_decide_eq_true one))
    · refine List.zipIdxLE_total fun a b => ?_
      simpa [before] using Int.le_total (key b.delta) (key a.delta)
  have distinct : numbered.Pairwise fun a b => a.2 ≠ b.2 := by
    have numbers : (candidates.zipIdx.map Prod.snd).Nodup := by
      simpa using List.nodup_range'
    exact List.pairwise_map.mp ((all.map Prod.snd).nodup_iff.mpr numbers)
  have ranked : numbered.Pairwise Preferred :=
    (ordered.and distinct).imp fun both => preferred_of_zipIdxLE both.2 both.1
  have head : cheapest share candidates =
      (numbered.take (budget share candidates.length)).map Prod.fst := by
    rw [List.map_take, sorted]
    rfl
  rw [head]
  refine .intro _ (numbered.drop (budget share candidates.length)) ?_ ?_ ?_
  · rwa [List.take_append_drop]
  · rwa [List.take_append_drop]
  · rw [List.length_take, all.length_eq, List.length_zipIdx]
    rfl

theorem cheapest_iff : Cheapest share candidates chosen ↔ chosen = cheapest share candidates :=
  ⟨fun cheap => cheap.unique (cheapest_cheapest share candidates),
    fun same => same ▸ cheapest_cheapest share candidates⟩

/-- The category of the pair is marked as lexical; categories without a mark are not. -/
def isLexical (lexical : List Bool) (candidate : SiblingPair δ) : Bool :=
  (lexical[candidate.state]?).getD false

theorem cheapest_nil (share : α) : cheapest share ([] : List (SiblingPair δ)) = [] := by
  simp [cheapest]

/-- Selection takes the cheapest candidates within each budget, whatever numbers the deltas are; with
bits for deltas, cheapness is by the total order of IEEE 754. With one budget, the selection is
determined by its being the head of a ranking of all candidates; it is part of them, and none that is
rejected has a greater delta than one that is selected. With two budgets, every candidate falls under
one of them, and the best lexical candidates come before the best others. Both come to the same if
all candidates are of one kind. -/
theorem select_cheapest (share : α) (lexical : List Bool) (candidates : List (SiblingPair δ)) :
    ((∀ x y : Binary64, AtMost x y ↔ x.AtMost y) ∧
      ∀ x y : Float, AtMost x y ↔ Binary64.AtMost ⟨x.toBits⟩ ⟨y.toBits⟩) ∧
    (∀ chosen, Cheapest share candidates chosen ↔
      chosen = select false share lexical candidates) ∧
    (∃ rejected, (select false share lexical candidates ++ rejected).Perm candidates ∧
      ∀ a ∈ select false share lexical candidates, ∀ b ∈ rejected, AtMost b.delta a.delta) ∧
    (select false share lexical candidates).length = kept share candidates.length ∧
    (candidates.filter (isLexical lexical) ++
      candidates.filter (!isLexical lexical ·)).Perm candidates ∧
    (∀ chosen, (∃ first second, Cheapest share (candidates.filter (isLexical lexical)) first ∧
        Cheapest share (candidates.filter (!isLexical lexical ·)) second ∧
        chosen = first ++ second) ↔
      chosen = select true share lexical candidates) ∧
    (select true share lexical candidates).length =
      kept share (candidates.countP (isLexical lexical)) +
        kept share (candidates.countP (!isLexical lexical ·)) ∧
    ∀ kind, (∀ candidate ∈ candidates, candidate.isLexical lexical = kind) →
      select true share lexical candidates = select false share lexical candidates := by
  have one : select false share lexical candidates = cheapest share candidates := rfl
  have two : select true share lexical candidates =
      cheapest share (candidates.filter (isLexical lexical)) ++
        cheapest share (candidates.filter (!isLexical lexical ·)) := rfl
  rw [one, two]
  refine ⟨⟨fun _ _ => atMost_iff, fun x y => atMost_iff (x := ⟨x.toBits⟩) (y := ⟨y.toBits⟩)⟩,
    fun _ => cheapest_iff, (cheapest_cheapest share candidates).rejected,
    (cheapest_cheapest share candidates).length_eq, List.filter_append_perm _ _, fun chosen => ?_,
    ?_, fun kind same => ?_⟩
  · simp only [cheapest_iff]
    constructor
    · rintro ⟨_, _, rfl, rfl, rfl⟩
      rfl
    · rintro rfl
      exact ⟨_, _, rfl, rfl, rfl⟩
  · rw [List.length_append, (cheapest_cheapest share _).length_eq,
      (cheapest_cheapest share _).length_eq, List.countP_eq_length_filter,
      List.countP_eq_length_filter]
  · cases kind with
    | false =>
      rw [List.filter_eq_nil_iff.mpr fun candidate member => by simp [same candidate member],
        List.filter_eq_self.mpr fun candidate member => by simp [same candidate member],
        cheapest_nil, List.nil_append]
    | true =>
      rw [List.filter_eq_self.mpr fun candidate member => by simp [same candidate member],
        List.filter_eq_nil_iff.mpr fun candidate member => by simp [same candidate member],
        cheapest_nil, List.append_nil]

/-- Half of six candidates, and half of the lexical and half of the other ones. The deltas are a
positive and a negative NaN, negative infinity and three zeros, the last of which is left. -/
theorem select_half :
    let candidates : List (SiblingPair Binary64) :=
      [⟨1, 0, 1, ⟨0xFFF8000000000000⟩⟩, ⟨2, 0, 1, ⟨0xFFF0000000000000⟩⟩, ⟨3, 0, 1, ⟨0⟩⟩,
        ⟨2, 2, 3, ⟨0⟩⟩, ⟨3, 2, 3, ⟨0⟩⟩, ⟨1, 2, 3, ⟨0x7FF8000000000000⟩⟩]
    select false (0.5 : Float) [false, true, true] candidates =
        [⟨1, 2, 3, ⟨0x7FF8000000000000⟩⟩, ⟨3, 0, 1, ⟨0⟩⟩, ⟨2, 2, 3, ⟨0⟩⟩] ∧
      select true (0.5 : Float) [false, true, true] candidates =
        [⟨1, 2, 3, ⟨0x7FF8000000000000⟩⟩, ⟨2, 2, 3, ⟨0⟩⟩, ⟨3, 0, 1, ⟨0⟩⟩] ∧
      (∀ candidate ∈ candidates, candidate.isLexical [] = false) ∧
      select true (0.5 : Float) [] candidates = select false (0.5 : Float) [] candidates := by
  intro candidates
  have best : Cheapest (0.5 : Float) candidates
      [⟨1, 2, 3, ⟨0x7FF8000000000000⟩⟩, ⟨3, 0, 1, ⟨0⟩⟩, ⟨2, 2, 3, ⟨0⟩⟩] := by
    let taken : List (SiblingPair Binary64 × Nat) :=
      [(⟨1, 2, 3, ⟨0x7FF8000000000000⟩⟩, 5), (⟨3, 0, 1, ⟨0⟩⟩, 2), (⟨2, 2, 3, ⟨0⟩⟩, 3)]
    let left : List (SiblingPair Binary64 × Nat) :=
      [(⟨3, 2, 3, ⟨0⟩⟩, 4), (⟨2, 0, 1, ⟨0xFFF0000000000000⟩⟩, 1),
        (⟨1, 0, 1, ⟨0xFFF8000000000000⟩⟩, 0)]
    exact .intro taken left (by decide) (by decide) (by decide +kernel)
  have bestLexical : Cheapest (0.5 : Float) (candidates.filter (isLexical [false, true, true]))
      [⟨1, 2, 3, ⟨0x7FF8000000000000⟩⟩, ⟨2, 2, 3, ⟨0⟩⟩] := by
    let taken : List (SiblingPair Binary64 × Nat) :=
      [(⟨1, 2, 3, ⟨0x7FF8000000000000⟩⟩, 3), (⟨2, 2, 3, ⟨0⟩⟩, 2)]
    let left : List (SiblingPair Binary64 × Nat) :=
      [(⟨2, 0, 1, ⟨0xFFF0000000000000⟩⟩, 1), (⟨1, 0, 1, ⟨0xFFF8000000000000⟩⟩, 0)]
    exact .intro taken left (by decide) (by decide) (by decide +kernel)
  have bestOther : Cheapest (0.5 : Float) (candidates.filter (!isLexical [false, true, true] ·))
      [⟨3, 0, 1, ⟨0⟩⟩] := by
    let taken : List (SiblingPair Binary64 × Nat) := [(⟨3, 0, 1, ⟨0⟩⟩, 0)]
    exact .intro taken [(⟨3, 2, 3, ⟨0⟩⟩, 1)] (by decide) (by decide) (by decide +kernel)
  have unmarked : ∀ candidate ∈ candidates, candidate.isLexical [] = false := by
    simp [isLexical]
  obtain ⟨-, whole, -, -, -, apart, -, -⟩ :=
    select_cheapest (0.5 : Float) [false, true, true] candidates
  exact ⟨((whole _).mp best).symm, ((apart _).mp ⟨_, _, bestLexical, bestOther, rfl⟩).symm,
    unmarked, (select_cheapest (0.5 : Float) [] candidates).2.2.2.2.2.2.2 false unmarked⟩

end SiblingPair

end LatentGrammar
