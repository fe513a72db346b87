import Mathlib
import LatentGrammar.Proofs.Delivery
import LatentGrammar.Forest

namespace LatentGrammar

open Finset

variable {β σ ι K : Type} [AddCommMonoid K] {allowed : Fault → Prop} {invariant : σ → Prop}
  {view : σ → K}

/-- The state keeps the invariant, and the view of it grows by the amount. -/
structure Grows (invariant : σ → Prop) (view : σ → K) (start : σ) (amount : K) (next : σ) :
    Prop where
  kept : invariant next
  grown : view next = view start + amount

theorem Grows.none {start : σ} (kept : invariant start) : Grows invariant view start 0 start :=
  ⟨kept, (add_zero _).symm⟩

theorem Grows.of_zero {start : σ} {amount : K} (kept : invariant start) (zero : amount = 0) :
    Grows invariant view start amount start := by
  rw [zero]
  exact .none kept

theorem Grows.skip {start : σ} {condition : Prop} [Decidable condition] {amount : K}
    (kept : invariant start) (zero : condition → amount = 0) :
    Grows invariant view start (if condition then amount else 0) start := by
  by_cases holds : condition
  · rw [if_pos holds, zero holds]
    exact .none kept
  · rw [if_neg holds]
    exact .none kept

theorem Delivers.foldlM_grows {step : σ → ι → Except Fault σ} {items : List ι} {start : σ}
    (amount : ι → K) (initial : invariant start)
    (each : ∀ state, ∀ item ∈ items, invariant state →
      Delivers allowed (Grows invariant view state (amount item)) (step state item)) :
    Delivers allowed (Grows invariant view start (items.map amount).sum)
      (items.foldlM step start) := by
  induction items generalizing start with
  | nil => exact .none initial
  | cons item rest ih =>
    rw [List.foldlM_cons]
    apply (each start item (by simp) initial).bind
    intro next grows
    apply (ih grows.kept fun state other member => each state other (by simp [member])).mono
    intro final later
    constructor
    · exact later.kept
    · rw [later.grown, grows.grown, List.map_cons, List.sum_cons, add_assoc]

theorem Delivers.stepBelow_grows {step : σ → Nat → Except Fault σ} {count : Nat} {start : σ}
    (amount : Nat → K) (initial : invariant start)
    (each : ∀ state number, number < count → invariant state →
      Delivers allowed (Grows invariant view state (amount number)) (step state number)) :
    Delivers allowed (Grows invariant view start (∑ number ∈ range count, amount number))
      (LatentGrammar.stepBelow count step start) := by
  have total : ∑ number ∈ range count, amount number = ((List.range count).map amount).sum :=
    Multiset.sum_coe _
  rw [stepBelow_eq_foldlM, total]
  apply Delivers.foldlM_grows amount initial
  intro state number member
  exact each state number (List.mem_range.mp member)

/-- Of all rounds, only one adds anything to the view, and that only under a condition. -/
theorem Delivers.stepBelow_once {step : σ → Nat → Except Fault σ} {count chosen : Nat}
    {start : σ} {condition : Prop} [Decidable condition] {amount : K} (below : chosen < count)
    (initial : invariant start)
    (each : ∀ state number, number < count → invariant state →
      Delivers allowed
        (Grows invariant view state (if condition ∧ chosen = number then amount else 0))
        (step state number)) :
    Delivers allowed (Grows invariant view start (if condition then amount else 0))
      (LatentGrammar.stepBelow count step start) := by
  have total : (∑ number ∈ range count, if condition ∧ chosen = number then amount else 0) =
      if condition then amount else 0 := by
    by_cases holds : condition
    · simp only [holds, true_and, if_true]
      rw [sum_ite_eq, if_pos (mem_range.mpr below)]
    · simp [holds]
  rw [← total]
  exact Delivers.stepBelow_grows _ initial each

theorem Forest.sweep_grows {α : Type} {whole : LatentTree α → Prop}
    {step : Nat → LatentTree α → σ → Except Fault (LatentTree α × σ)} (amount : LatentTree α → K)
    (each : ∀ index tree state, whole tree → invariant state →
      Delivers Never (fun next => Grows invariant view state (amount tree) next.2)
        (step index tree state))
    {trees : List (LatentTree α)} (all : ∀ tree ∈ trees, whole tree) {start : σ}
    (initial : invariant start) (index : Nat) :
    (sweep step index trees start).fault = none ∧
      Grows invariant view start (trees.map amount).sum (sweep step index trees start).result := by
  induction trees generalizing index start with
  | nil => exact ⟨rfl, .none initial⟩
  | cons tree rest ih =>
    obtain ⟨here, later⟩ := List.forall_mem_cons.mp all
    obtain ⟨⟨scored, next⟩, done, grows⟩ := delivers_never_iff.mp (each index tree start here initial)
    obtain ⟨sound, final⟩ := ih later grows.kept (index + 1)
    unfold sweep
    simp only [done]
    refine ⟨sound, final.kept, ?_⟩
    rw [final.grown, grows.grown, List.map_cons, List.sum_cons, add_assoc]

theorem sum_map_apply {T : Type} (items : List ι) (f : ι → T → K) :
    (items.map f).sum = fun choice => (items.map fun item => f item choice).sum := by
  induction items with
  | nil => rfl
  | cons item rest ih =>
    simp only [List.map_cons, List.sum_cons, ih]
    rfl

theorem sum_map_filter (items : List ι) (keep : ι → Prop) [DecidablePred keep] (f : ι → K) :
    ((items.filter keep).map f).sum =
      (items.map fun item => if keep item then f item else 0).sum := by
  rw [List.sum_map_ite]
  simp

theorem sum_list_comm (set : Finset β) (items : List ι) (f : β → ι → K) :
    ∑ member ∈ set, (items.map (f member)).sum =
      (items.map fun item => ∑ member ∈ set, f member item).sum := by
  induction items with
  | nil => simp
  | cons item rest ih => simp [sum_add_distrib, ih]

end LatentGrammar
