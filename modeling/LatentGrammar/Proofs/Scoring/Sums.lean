import LatentGrammar.Proofs.Exact
import LatentGrammar.Proofs.Scoring.Shape

namespace LatentGrammar

open Finset

variable {α : Type} [ExactScalar α]

/-- The entry of a vector; zero beyond its end. -/
def entry (values : List α) (n : Nat) : α := (values[n]?).getD 0

theorem entry_map_range {size n : Nat} {f : Nat → α} (below : n < size) :
    entry ((List.range size).map f) n = f n := by
  simp [entry, below]

theorem entry_replicate_zero (size n : Nat) : entry (List.replicate size (0 : α)) n = 0 := by
  unfold entry
  rw [List.getElem?_replicate]
  split <;> rfl

theorem ScaledVector.score_eq_entry (vector : ScaledVector α) (s : Nat) :
    vector.score s = entry vector.values s * Scalar.scaleFactor vector.scale := rfl

theorem foldl_eq_sum {scores : List α} {step : α → α × Nat → α} (f : α → Nat → α)
    (each : ∀ sum score n, step sum (score, n) = sum + f score n) (start : α) :
    scores.zipIdx.foldl step start = start + ∑ n ∈ range scores.length, f (entry scores n) n :=
  foldl_zipIdx_eq_sum 0 f each start

theorem foldl_skip_eq_sum {scores : List α} {step : α → α × Nat → α} (f : α → Nat → α)
    (each : ∀ sum score n, step sum (score, n) = if score == 0 then sum else sum + f score n)
    (zero : ∀ n, f 0 n = 0) (start : α) :
    scores.zipIdx.foldl step start = start + ∑ n ∈ range scores.length, f (entry scores n) n := by
  refine foldl_eq_sum f (fun sum score n => ?_) start
  rw [each]
  split
  · rename_i same
    rw [ExactScalar.beq_iff.mp same, zero, add_zero]
  · rfl

theorem foldl_foldl_eq_sum {outer inner : List α} {step : α → α → Nat → α → Nat → α}
    (f : α → Nat → α → Nat → α) (each : ∀ sum x n y m, step sum x n y m = sum + f x n y m)
    (zero : ∀ n y m, f 0 n y m = 0) :
    outer.zipIdx.foldl (fun sum (x, n) =>
        if x == 0 then sum else inner.zipIdx.foldl (fun sum (y, m) => step sum x n y m) sum) 0 =
      ∑ n ∈ range outer.length, ∑ m ∈ range inner.length,
        f (entry outer n) n (entry inner m) m := by
  rw [foldl_skip_eq_sum (fun x n => ∑ m ∈ range inner.length, f x n (entry inner m) m)
    (fun sum x n => ?_) (fun n => sum_eq_zero fun m _ => zero n _ m), zero_add]
  simp only
  rw [foldl_eq_sum (f x n) (fun sum y m => each sum x n y m)]

namespace LatentTree

variable {rules : RuleTable α} {substates : List Nat} {key : Production}
  {parent child left right : ScaledVector α} {values : List α} {size n : Nat}

/-- What is applied to a rule has to be known only for rules that the grammar has, if it makes
zeros of a rule of zeros. -/
theorem entry_applyRule {apply : RuleBlock α → Except Fault (List α)}
    (value : (Nat → Nat → Nat → α) → α)
    (each : ∀ block, rules.find? key = some block →
      ∃ result, apply block = .ok result ∧ entry result n = value block.cell)
    (zero : value (fun _ _ _ => 0) = 0)
    (success : applyRule (rules.find? key) size apply = .ok values) :
    entry values n = value (rules.cell key) := by
  cases found : rules.find? key with
  | none =>
    rw [found] at success
    obtain rfl : List.replicate size 0 = values := Except.ok.inj success
    rw [entry_replicate_zero, RuleTable.cell_of_absent found, zero]
  | some block =>
    obtain ⟨result, computed, same⟩ := each block found
    rw [found] at success
    obtain rfl := Except.ok.inj (computed.symm.trans success)
    rw [same, RuleTable.cell_of_find? found]

theorem score_single {vector : ScaledVector α} (cell : Nat → α)
    (sum : entry values n = ∑ i ∈ range vector.values.length, cell i * entry vector.values i) :
    (ScaledVector.rescale ⟨values, vector.scale⟩).score n =
      ∑ i ∈ range vector.values.length, cell i * vector.score i := by
  rw [ScaledVector.score_rescale, ScaledVector.score_eq_entry, sum, sum_mul]
  apply sum_congr rfl
  intro i _
  rw [ScaledVector.score_eq_entry]
  ring

theorem score_double {first second : ScaledVector α} (cell : Nat → Nat → α)
    (sum : entry values n =
      ∑ i ∈ range first.values.length, ∑ k ∈ range second.values.length,
        cell i k * entry first.values i * entry second.values k) :
    (ScaledVector.rescale ⟨values, first.scale + second.scale⟩).score n =
      ∑ i ∈ range first.values.length, ∑ k ∈ range second.values.length,
        cell i k * first.score i * second.score k := by
  rw [ScaledVector.score_rescale, ScaledVector.score_eq_entry, sum, sum_mul]
  apply sum_congr rfl
  intro i _
  rw [sum_mul]
  apply sum_congr rfl
  intro k _
  simp only [ScaledVector.score_eq_entry, ExactScalar.scaleFactor_add]
  ring

theorem score_insideUnary
    (sized : ∀ block, rules.find? key = some block → block.Sized size child.values.length 1)
    (success : applyRule (rules.find? key) size (·.insideUnary size child.values) = .ok values)
    (below : n < size) :
    (ScaledVector.rescale ⟨values, child.scale⟩).score n =
      ∑ j ∈ range child.values.length, rules.cell key n j 0 * child.score j := by
  refine score_single _ (entry_applyRule
    (fun cell => ∑ j ∈ range child.values.length, cell n j 0 * entry child.values j)
    (fun block found => ⟨_, RuleBlock.insideUnary_eq (sized block found), ?_⟩) (by simp) success)
  rw [entry_map_range below, foldl_eq_sum (fun ic j => block.cell n j 0 * ic) (fun _ _ _ => rfl),
    zero_add]

theorem score_insideBinary
    (sized : ∀ block, rules.find? key = some block →
      block.Sized size left.values.length right.values.length)
    (success : applyRule (rules.find? key) size (·.insideBinary size left.values right.values)
      = .ok values)
    (below : n < size) :
    (ScaledVector.rescale ⟨values, left.scale + right.scale⟩).score n =
      ∑ j ∈ range left.values.length, ∑ k ∈ range right.values.length,
        rules.cell key n j k * left.score j * right.score k := by
  refine score_double _ (entry_applyRule
    (fun cell => ∑ j ∈ range left.values.length, ∑ k ∈ range right.values.length,
      cell n j k * entry left.values j * entry right.values k)
    (fun block found => ⟨_, RuleBlock.insideBinary_eq (sized block found), ?_⟩) (by simp) success)
  rw [entry_map_range below]
  exact foldl_foldl_eq_sum (fun il j ir k => block.cell n j k * il * ir)
    (fun _ _ _ _ _ => rfl) (by simp)

theorem score_outsideUnary
    (sized : ∀ block, rules.find? key = some block → block.Sized parent.values.length size 1)
    (success : applyRule (rules.find? key) size (·.outsideUnary size parent.values) = .ok values)
    (below : n < size) :
    (ScaledVector.rescale ⟨values, parent.scale⟩).score n =
      ∑ i ∈ range parent.values.length, rules.cell key i n 0 * parent.score i := by
  refine score_single _ (entry_applyRule
    (fun cell => ∑ i ∈ range parent.values.length, cell i n 0 * entry parent.values i)
    (fun block found => ⟨_, RuleBlock.outsideUnary_eq (sized block found), ?_⟩) (by simp) success)
  rw [entry_map_range below, foldl_skip_eq_sum (fun op i => block.cell i n 0 * op)
    (fun _ _ _ => by simp only [mul_comm]) (by simp), zero_add]

theorem score_outsideLeft
    (sized : ∀ block, rules.find? key = some block →
      block.Sized parent.values.length left.values.length right.values.length)
    (success : applyRule (rules.find? key) left.values.length
      (·.outsideLeft parent.values left.values right.values) = .ok values)
    (below : n < left.values.length) :
    (ScaledVector.rescale ⟨values, parent.scale + right.scale⟩).score n =
      ∑ i ∈ range parent.values.length, ∑ k ∈ range right.values.length,
        rules.cell key i n k * parent.score i * right.score k := by
  refine score_double (fun i k => rules.cell key i n k) (entry_applyRule
    (fun cell => ∑ i ∈ range parent.values.length, ∑ k ∈ range right.values.length,
      cell i n k * entry parent.values i * entry right.values k)
    (fun block found => ⟨_, RuleBlock.outsideLeft_eq (sized block found), ?_⟩) (by simp) success)
  rw [entry_map_range below]
  exact foldl_foldl_eq_sum (fun op i ir k => block.cell i n k * op * ir)
    (fun _ op i _ k => by rw [mul_comm (block.cell i n k) op]) (by simp)

theorem score_outsideRight
    (sized : ∀ block, rules.find? key = some block →
      block.Sized parent.values.length left.values.length right.values.length)
    (success : applyRule (rules.find? key) right.values.length
      (·.outsideRight parent.values left.values right.values) = .ok values)
    (below : n < right.values.length) :
    (ScaledVector.rescale ⟨values, parent.scale + left.scale⟩).score n =
      ∑ i ∈ range parent.values.length, ∑ j ∈ range left.values.length,
        rules.cell key i j n * parent.score i * left.score j := by
  refine score_double (fun i j => rules.cell key i j n) (entry_applyRule
    (fun cell => ∑ i ∈ range parent.values.length, ∑ j ∈ range left.values.length,
      cell i j n * entry parent.values i * entry left.values j)
    (fun block found => ⟨_, RuleBlock.outsideRight_eq (sized block found), ?_⟩) (by simp) success)
  rw [entry_map_range below]
  exact foldl_foldl_eq_sum (fun op i il j => block.cell i j n * op * il)
    (fun _ op i _ j => by rw [mul_comm (block.cell i j n) op]) (by simp)

end LatentTree

end LatentGrammar
