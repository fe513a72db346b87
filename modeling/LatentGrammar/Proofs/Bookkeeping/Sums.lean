import LatentGrammar.Proofs.Consistency.Split
import LatentGrammar.Proofs.Counting.VisitSums

namespace LatentGrammar

variable {α β : Type} [ExactScalar α] {size : Nat}

/-- An entry that grows makes the sum of the list grow. -/
theorem sum_map_set {items : List β} {measure : β → α} {index : Nat} {old new : β} {amount : α}
    (found : items[index]? = some old) (grown : measure new = measure old + amount) :
    ((items.set index new).map measure).sum = (items.map measure).sum + amount := by
  induction items generalizing index with
  | nil => cases found
  | cons item rest ih =>
    cases index with
    | zero =>
      obtain rfl : item = old := by simpa using found
      rw [List.set_cons_zero, List.map_cons, List.sum_cons, List.map_cons, List.sum_cons, grown]
      exact add_right_comm _ _ _
    | succ index =>
      rw [List.set_cons_succ, List.map_cons, List.sum_cons, List.map_cons, List.sum_cons,
        ih (by simpa using found), add_assoc]

namespace NameTable

variable {table : NameTable β} {measure : β → α} {name : String}

/-- The sum over all names. -/
def total (measure : β → α) (table : NameTable β) : α :=
  (table.map fun named => measure named.2).sum

theorem total_alter {default : β} {f : β → β} {amount : α} (fresh : measure (f default) = amount)
    (kept : ∀ named ∈ table, measure (f named.2) = measure named.2 + amount) :
    (table.alter name default f).total measure = table.total measure + amount := by
  induction table with
  | nil => simp [alter, total, fresh]
  | cons named rest ih =>
    obtain ⟨here, later⟩ := List.forall_mem_cons.mp kept
    unfold alter
    split
    · rw [total, List.map_cons, List.sum_cons, here]
      exact add_right_comm _ _ _
    · rw [total, List.map_cons, List.sum_cons]
      exact (congrArg (measure named.2 + ·) (ih later)).trans (add_assoc _ _ _).symm

omit [ExactScalar α] in
theorem get?_cons (named : String × β) (rest : NameTable β) (other : String) :
    get? (named :: rest) other = if other = named.1 then some named.2 else get? rest other := by
  by_cases same : other = named.1
  · rw [if_pos same, same]
    exact List.lookup_cons_self
  · rw [if_neg same, get?, List.lookup_cons, beq_false_of_ne same]
    rfl

omit [ExactScalar α] in
theorem get?_map {γ : Type} (f : String → β → γ) (table : NameTable β) (name : String) :
    get? (table.map fun (other, value) => (other, f other value)) name =
      (table.get? name).map (f name) := by
  induction table with
  | nil => rfl
  | cons named rest ih =>
    rw [List.map_cons, get?_cons, get?_cons, ih]
    by_cases same : name = named.1
    · rw [if_pos same, if_pos same, Option.map_some, same]
    · rw [if_neg same, if_neg same]

omit [ExactScalar α] in
theorem get?_alter (table : NameTable β) (name other : String) (default : β) (f : β → β) :
    (table.alter name default f).get? other =
      if other = name then some (f ((table.get? name).getD default)) else table.get? other := by
  induction table with
  | nil => exact get?_cons (name, f default) [] other
  | cons named rest ih =>
    unfold alter
    split
    · rename_i here
      obtain rfl := eq_of_beq here
      rw [get?_cons, get?_cons, get?_cons, if_pos rfl]
      split
      · rfl
      · rfl
    · rename_i elsewhere
      have different : name ≠ named.1 := by simpa using elsewhere
      rw [get?_cons, get?_cons, get?_cons, if_neg different, ih]
      by_cases same : other = named.1
      · rw [if_pos same, if_pos same, if_neg fun again => different (again.symm.trans same)]
      · rw [if_neg same, if_neg same]

end NameTable

/-- A measure of vectors that adds up where vectors of the same size are added. -/
structure Additive (measure : List α → α) : Prop where
  zeros : ∀ size, measure (List.replicate size 0) = 0
  addInto : ∀ totals values, values.length = totals.length →
    measure (Scalar.addInto totals values) = measure totals + measure values

theorem sum_addInto {totals values : List α} (same : values.length = totals.length) :
    (Scalar.addInto totals values).sum = totals.sum + values.sum := by
  induction totals generalizing values with
  | nil =>
    obtain rfl := List.eq_nil_of_length_eq_zero same
    simp [Scalar.addInto]
  | cons total totals ih =>
    cases values with
    | nil => simp at same
    | cons value values =>
      rw [Scalar.addInto, List.sum_cons, ih (by simpa using same), List.sum_cons, List.sum_cons]
      exact add_add_add_comm _ _ _ _

theorem additive_sum : Additive (List.sum : List α → α) where
  zeros size := by simp
  addInto _ _ same := sum_addInto same

theorem additive_entry (s : Nat) : Additive fun values : List α => entry values s where
  zeros size := entry_replicate_zero size s
  addInto _ _ same := entry_addInto same s

namespace Additive

variable {measure : List α → α} {table : NameTable (List α)}

theorem total_addNamed (additive : Additive measure) (fits : table.Fits size) (name : String)
    {weights : List α} (sized : HasSize weights size) :
    (EmissionTables.addNamed name weights table).total measure =
      table.total measure + measure weights := by
  apply NameTable.total_alter
  · rw [additive.addInto _ _ (by simp), additive.zeros, zero_add]
  · intro named member
    exact additive.addInto _ _ (sized.trans (fits named member).symm)

theorem columnSums (additive : Additive measure) (fits : table.Fits size) :
    measure (EmissionTables.columnSums size table) = table.total measure := by
  have added (start : List α) (sized : start.length = size) :
      measure (table.foldl (fun totals named => Scalar.addInto totals named.2) start) =
        measure start + table.total measure := by
    induction table generalizing start with
    | nil => simp [NameTable.total]
    | cons named rest ih =>
      obtain ⟨here, later⟩ := List.forall_mem_cons.mp fits
      have same : named.2.length = start.length := here.trans sized.symm
      rw [List.foldl_cons, ih later _ ((Scalar.length_addInto _ _).trans sized),
        additive.addInto _ _ same, NameTable.total, NameTable.total, List.map_cons, List.sum_cons,
        add_assoc]
  have all := added (List.replicate size 0) List.length_replicate
  rwa [additive.zeros, zero_add] at all

end Additive

theorem total_increment (name : String) (table : NameTable α) :
    (EmissionTables.increment name table).total id = table.total id + 1 :=
  NameTable.total_alter (zero_add 1) fun _ _ => rfl

end LatentGrammar
