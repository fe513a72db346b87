import Mathlib
import LatentGrammar.Capacity

/-! Computations that may fault. What a computation delivers is said of its result if there is one,
and of its fault otherwise, so that the same rules serve for computations that never fault and for
those that may only run out of room. -/

namespace LatentGrammar

variable {β σ ι : Type} {allowed : Fault → Prop}

/-- The result has the property, or the fault is an allowed one. -/
def Delivers (allowed : Fault → Prop) (property : β → Prop) : Except Fault β → Prop
  | .ok result => property result
  | .error fault => allowed fault

/-- No fault is allowed. -/
def Never (_ : Fault) : Prop := False

/-- Every fault is allowed; what is delivered is said of a result only. -/
def Any (_ : Fault) : Prop := True

/-- Numbers may outgrow a word, and tables the memory. -/
def Overflow (fault : Fault) : Prop := fault = .overflow

theorem any_overflow : Any .overflow := trivial

theorem overflow_overflow : Overflow .overflow := rfl

@[simp] theorem delivers_ok {property : β → Prop} {result : β} :
    Delivers allowed property (.ok result) ↔ property result := Iff.rfl

@[simp] theorem delivers_pure {property : β → Prop} {result : β} :
    Delivers allowed property (pure result) ↔ property result := Iff.rfl

@[simp] theorem delivers_error {property : β → Prop} {fault : Fault} :
    Delivers allowed property (.error fault) ↔ allowed fault := Iff.rfl

@[simp] theorem ok_bind (value : β) (next : β → Except Fault σ) :
    Except.ok value >>= next = next value := rfl

theorem delivers_never_iff {property : β → Prop} {result : Except Fault β} :
    Delivers Never property result ↔ ∃ value, result = .ok value ∧ property value := by
  cases result with
  | error fault => simp [Never]
  | ok value => simp

theorem delivers_never_ok {value : β} {result : Except Fault β}
    (delivers : Delivers Never (· = value) result) : result = .ok value := by
  obtain ⟨_, done, rfl⟩ := delivers_never_iff.mp delivers
  exact done

namespace Delivers

theorem mono {property other : β → Prop} {result : Except Fault β}
    (delivers : Delivers allowed property result) (implies : ∀ value, property value → other value) :
    Delivers allowed other result := by
  cases result with
  | error fault => exact delivers
  | ok value => exact implies value delivers

theorem bind {property : β → Prop} {other : σ → Prop} {result : Except Fault β}
    {next : β → Except Fault σ} (first : Delivers allowed property result)
    (second : ∀ value, property value → Delivers allowed other (next value)) :
    Delivers allowed other (result >>= next) := by
  cases result with
  | error fault => exact first
  | ok value => exact second value first

theorem bind_ok {property : β → Prop} {other : σ → Prop} {result : Except Fault β}
    {next : β → Except Fault σ} (first : Delivers allowed property result)
    (second : ∀ value, result = .ok value → property value → Delivers allowed other (next value)) :
    Delivers allowed other (result >>= next) := by
  cases result with
  | error fault => exact first
  | ok value => exact second value rfl first

theorem ite {property : β → Prop} {condition : Prop} [Decidable condition]
    {yes no : Except Fault β} (first : condition → Delivers allowed property yes)
    (second : ¬condition → Delivers allowed property no) :
    Delivers allowed property (if condition then yes else no) := by
  split
  · exact first ‹_›
  · exact second ‹_›

theorem mono_ok {property other : β → Prop} {result : Except Fault β}
    (delivers : Delivers allowed property result)
    (implies : ∀ value, result = .ok value → property value → other value) :
    Delivers allowed other result := by
  cases result with
  | error fault => exact delivers
  | ok value => exact implies value rfl delivers

theorem of_ok {property : β → Prop} {result : Except Fault β} {value : β}
    (delivers : Delivers allowed property result) (success : result = .ok value) :
    property value := by
  subst success
  exact delivers

theorem mapM {property : ι → β → Prop} {f : ι → Except Fault β} {items : List ι}
    (each : ∀ item ∈ items, Delivers allowed (property item) (f item)) :
    Delivers allowed (List.Forall₂ property items) (items.mapM f) := by
  induction items with
  | nil => exact .nil
  | cons item rest ih =>
    rw [List.mapM_cons]
    apply (each item (by simp)).bind
    intro value holds
    refine (ih fun other member => each other (by simp [member])).bind fun values all => ?_
    exact .cons holds all

theorem mapM_forall {property : β → Prop} {f : ι → Except Fault β} {items : List ι}
    (each : ∀ item ∈ items, Delivers allowed property (f item)) :
    Delivers allowed (fun values => ∀ value ∈ values, property value) (items.mapM f) := by
  apply (Delivers.mapM each).mono
  intro values all value member
  induction all with
  | nil => exact absurd member List.not_mem_nil
  | cons holds _ ih =>
    rcases List.mem_cons.mp member with rfl | later
    · exact holds
    · exact ih (fun item present => each item (by simp [present])) later

theorem mapM_eq {f : ι → Except Fault β} {plain : ι → β} {items : List ι}
    (each : ∀ item ∈ items, Delivers allowed (· = plain item) (f item)) :
    Delivers allowed (· = items.map plain) (items.mapM f) := by
  apply (Delivers.mapM each).mono
  intro values all
  induction all with
  | nil => rfl
  | cons same _ ih => rw [same, List.map_cons, ih fun item member => each item (by simp [member])]

theorem mapM_option {property : β → Prop} {f : ι → Except Fault β} {item : Option ι}
    (known : ∀ value, item = some value → Delivers allowed property (f value)) :
    Delivers allowed (fun next => ∀ value, next = some value → property value) (item.mapM f) := by
  cases item with
  | none => exact fun _ absent => nomatch absent
  | some value =>
    refine (known value rfl).bind fun result holds other same => ?_
    obtain rfl := Option.some.inj same
    exact holds

theorem mapM_zipIdx {γ : Type} {property : Nat → γ → Prop} {f : β × Nat → Except Fault γ}
    {items : List β}
    (each : ∀ item n, items[n]? = some item → Delivers allowed (property n) (f (item, n))) :
    Delivers allowed (fun values => values.length = items.length ∧
      ∀ (n : Nat) value, values[n]? = some value → property n value) (items.zipIdx.mapM f) := by
  have all : Delivers allowed (List.Forall₂ (fun entry => property entry.2) items.zipIdx)
      (items.zipIdx.mapM f) := Delivers.mapM fun (item, n) member =>
    each item n (List.mem_zipIdx_iff_getElem?.mp member)
  refine all.mono fun values all => ⟨by simpa using all.length_eq.symm, fun n value found => ?_⟩
  have numbered := (List.forall₂_iff_get.mp all).2
  obtain ⟨inside, same⟩ := List.getElem?_eq_some_iff.mp found
  have here := numbered n (by rw [all.length_eq]; exact inside) inside
  simpa [same] using here

theorem foldlM {invariant : σ → Prop} {step : σ → ι → Except Fault σ} {items : List ι}
    {start : σ} (initial : invariant start)
    (each : ∀ state, ∀ item ∈ items, invariant state →
      Delivers allowed invariant (step state item)) :
    Delivers allowed invariant (items.foldlM step start) := by
  induction items generalizing start with
  | nil => exact initial
  | cons item rest ih =>
    rw [List.foldlM_cons]
    apply (each start item (by simp) initial).bind
    intro next holds
    exact ih holds fun state other member => each state other (by simp [member])

theorem stepBelow {invariant : σ → Prop} {step : σ → Nat → Except Fault σ} {count : Nat}
    {start : σ} (initial : invariant start)
    (each : ∀ state number, number < count → invariant state →
      Delivers allowed invariant (step state number)) :
    Delivers allowed invariant (stepBelow count step start) := by
  rw [stepBelow_eq_foldlM]
  exact foldlM initial fun state number member =>
    each state number (List.mem_range.mp member)

theorem tabulate {property : Nat → β → Prop} {f : Nat → Except Fault β} {count : Nat}
    (each : ∀ number, number < count → Delivers allowed (property number) (f number)) :
    Delivers allowed (List.Forall₂ property (List.range count)) (tabulate count f) := by
  rw [tabulate_eq_mapM]
  exact mapM fun number member => each number (List.mem_range.mp member)

theorem tabulate_forall {property : β → Prop} {f : Nat → Except Fault β} {count : Nat}
    (each : ∀ number, Delivers allowed property (f number)) :
    Delivers allowed (fun values => ∀ value ∈ values, property value)
      (LatentGrammar.tabulate count f) := by
  rw [tabulate_eq_mapM]
  exact mapM_forall fun number _ => each number

theorem length_tabulate {f : Nat → Except Fault β} {count : Nat}
    (each : ∀ number, number < count → Delivers allowed (fun _ => True) (f number)) :
    Delivers allowed (·.length = count) (LatentGrammar.tabulate count f) :=
  (tabulate each).mono fun values all => by simpa using all.length_eq.symm

end Delivers

theorem delivers_fetch {table : List β} {index : Nat} {property : β → Prop}
    (present : ∃ entry, table[index]? = some entry ∧ property entry) :
    Delivers allowed property (fetch table index) := by
  obtain ⟨entry, found, holds⟩ := present
  rw [fetch_eq_ok_iff.mpr found]
  exact holds

theorem delivers_fetch_below {table : List β} {index : Nat} (below : index < table.length) :
    Delivers allowed (fun _ => True) (fetch table index) :=
  delivers_fetch ⟨table[index], List.getElem?_eq_getElem below, trivial⟩

theorem delivers_fill {size : Nat} {entry : β} (room : size < Word.tableLimit) :
    Delivers allowed (· = List.replicate size entry) (fill size entry) := by
  rw [fill_eq_ok_iff.mpr ⟨room, rfl⟩]
  rfl

theorem delivers_fill_or_overflow {size : Nat} {entry : β}
    (crowded : Word.tableLimit ≤ size → allowed .overflow) :
    Delivers allowed (· = List.replicate size entry) (fill size entry) := by
  by_cases room : size < Word.tableLimit
  · exact delivers_fill room
  · simpa [fill, room] using crowded (Nat.le_of_not_lt room)

theorem delivers_word {n : Nat} (overflow : allowed .overflow) :
    Delivers allowed (· = n) (word n) := by
  by_cases fits : n < Word.limit
  · simp [word, fits]
  · simpa [word, fits] using overflow

theorem delivers_checkSizes {sizes : List Nat}
    (crowded : (∃ size ∈ sizes, Word.tableLimit ≤ size) → allowed .overflow) :
    Delivers allowed (fun _ => True) (checkSizes sizes) :=
  Delivers.ite (fun _ => trivial) fun many => crowded (by simpa using many)

/-- Nothing is said of what may fault in any way and deliver anything. -/
theorem delivers_any (result : Except Fault β) :
    Delivers Any (fun _ => True) result := by
  cases result <;> trivial

theorem fetch_keeps {property : β → Prop} {table : List β} (all : ∀ item ∈ table, property item)
    (index : Nat) : Delivers Any property (fetch table index) :=
  (delivers_any _).mono_ok fun item found _ =>
    all item (List.mem_of_getElem? (fetch_eq_ok_iff.mp found))

/-- What is delivered in any case, with the faults that there are under a condition. -/
theorem Delivers.under {property : β → Prop} {condition : Prop} {result : Except Fault β}
    (holds : Delivers Any property result)
    (faults : condition → Delivers Overflow (fun _ => True) result) :
    Delivers (fun fault => condition → Overflow fault) property result := by
  cases result with
  | error fault => exact faults
  | ok value => exact holds

theorem foldlM_eq_foldl {ε : Type} {step : σ → ι → Except ε σ} {plain : σ → ι → σ}
    {items : List ι} (each : ∀ state, ∀ item ∈ items, step state item = .ok (plain state item))
    (start : σ) : items.foldlM step start = .ok (items.foldl plain start) := by
  induction items generalizing start with
  | nil => rfl
  | cons item rest ih =>
    rw [List.foldlM_cons, each start item (by simp)]
    exact ih (fun state other member => each state other (by simp [member])) _

theorem mapM_eq_map {ε : Type} {f : ι → Except ε β} {plain : ι → β} {items : List ι}
    (each : ∀ item ∈ items, f item = .ok (plain item)) :
    items.mapM f = .ok (items.map plain) := by
  induction items with
  | nil => rfl
  | cons item rest ih =>
    rw [List.mapM_cons, each item (by simp), ih fun other member => each other (by simp [member])]
    rfl

/-- Results that are had one by one are had together. -/
theorem mapM_eq_ok_of_forall₂ {ε : Type} {f : ι → Except ε β} {items : List ι} {values : List β}
    (all : List.Forall₂ (fun item value => f item = .ok value) items values) :
    items.mapM f = .ok values := by
  induction all with
  | nil => rfl
  | cons here _ ih =>
    rw [List.mapM_cons, here, ih]
    rfl

theorem forM_eq_ok {ε : Type} {check : ι → Except ε Unit} {items : List ι}
    (each : ∀ item ∈ items, check item = .ok ()) : items.forM check = .ok () := by
  induction items with
  | nil => rfl
  | cons item rest ih =>
    simp only [List.forM, each item (by simp)]
    exact ih fun other member => each other (by simp [member])

theorem bind_eq_ok_iff {ε : Type} {result : Except ε β} {next : β → Except ε σ} {value : σ} :
    result >>= next = .ok value ↔ ∃ first, result = .ok first ∧ next first = .ok value := by
  cases result with
  | error fault => simp [Bind.bind, Except.bind]
  | ok first => simp [Bind.bind, Except.bind]

theorem exists_ok_of_isOk {ε : Type} {result : Except ε β} (succeeds : result.isOk = true) :
    ∃ value, result = .ok value := by
  cases result with
  | error fault => cases succeeds
  | ok value => exact ⟨value, rfl⟩

theorem of_forM_eq_ok {ε : Type} {check : ι → Except ε Unit} {items : List ι}
    (passed : items.forM check = .ok ()) : ∀ item ∈ items, check item = .ok () := by
  induction items with
  | nil => exact fun _ absent => absurd absent List.not_mem_nil
  | cons item rest ih =>
    obtain ⟨_, here, later⟩ := bind_eq_ok_iff.mp passed
    exact List.forall_mem_cons.mpr ⟨here, ih later⟩

end LatentGrammar
