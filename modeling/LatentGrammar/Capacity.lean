import LatentGrammar.Fault
import LatentGrammar.Word

/-! What a machine has room for. Numbers are checked to be words and tables to fit into memory, and
numbered steps stop at the first fault, so that a size far beyond the data at hand costs nothing.
The statements say that the steps are otherwise those of a list of numbers. -/

namespace LatentGrammar

variable {β σ : Type}

def word (n : Nat) : Except Fault Nat :=
  if n < Word.limit then .ok n else .error .overflow

theorem word_eq_ok_iff {n m : Nat} : word n = .ok m ↔ n < Word.limit ∧ n = m := by
  by_cases fits : n < Word.limit <;> simp [word, fits]

def fill (size : Nat) (entry : β) : Except Fault (List β) :=
  if size < Word.tableLimit then .ok (List.replicate size entry) else .error .overflow

theorem fill_eq_ok_iff {size : Nat} {entry : β} {table : List β} :
    fill size entry = .ok table ↔
      size < Word.tableLimit ∧ List.replicate size entry = table := by
  by_cases fits : size < Word.tableLimit <;> simp [fill, fits]

/-- Sizes of tables that all have to fit into memory. -/
def checkSizes (sizes : List Nat) : Except Fault Unit :=
  if sizes.all (· < Word.tableLimit) then .ok () else .error .overflow

theorem checkSizes_eq_ok_iff {sizes : List Nat} :
    checkSizes sizes = .ok () ↔ ∀ size ∈ sizes, size < Word.tableLimit := by
  unfold checkSizes
  split <;> simp_all

/-- Steps with the numbers from `first` on, `count` of them. -/
def stepFrom (step : σ → Nat → Except Fault σ) : Nat → Nat → σ → Except Fault σ
  | _, 0, state => .ok state
  | first, count + 1, state => do stepFrom step (first + 1) count (← step state first)

def stepBelow (count : Nat) (step : σ → Nat → Except Fault σ) (state : σ) : Except Fault σ :=
  stepFrom step 0 count state

theorem stepFrom_eq_foldlM (step : σ → Nat → Except Fault σ) (first count : Nat) (state : σ) :
    stepFrom step first count state = (List.range' first count).foldlM step state := by
  induction count generalizing first state with
  | zero => rfl
  | succ count ih => simp [stepFrom, List.range'_succ, ih]

theorem stepBelow_eq_foldlM (step : σ → Nat → Except Fault σ) (count : Nat) (state : σ) :
    stepBelow count step state = (List.range count).foldlM step state := by
  rw [stepBelow, stepFrom_eq_foldlM, List.range_eq_range']

def tabulate (count : Nat) (f : Nat → Except Fault β) : Except Fault (List β) := do
  return (← stepBelow count (fun values n => return (← f n) :: values) []).reverse

theorem tabulate_eq_mapM (count : Nat) (f : Nat → Except Fault β) :
    tabulate count f = (List.range count).mapM f := by
  rw [tabulate, stepBelow_eq_foldlM, List.mapM_eq_reverse_foldlM_cons]
  rfl

end LatentGrammar
