import LatentGrammar.Checkpoint.Decode
import Mathlib

/-! Reading back what was written into a document. Numbers that are not finite are written as null,
which no number is read from, so a part is recovered exactly if all of its numbers are finite. The
rules below follow the ways in which documents are put together. -/

namespace LatentGrammar

variable {α β γ : Type}

/-- The reading comes to a result exactly if the numbers are finite, and the result is the value. -/
def Recovers [Scalar α] (numbers : List α) (value : β) (reading : Option β) : Prop :=
  ∀ found, reading = some found ↔ (∀ x ∈ numbers, Scalar.isFinite x = true) ∧ found = value

variable [Scalar α]

namespace Recovers

variable {numbers others : List α} {value : β} {reading : Option β}

/-- What has no numbers is always recovered. -/
theorem of_eq (read : reading = some value) : Recovers ([] : List α) value reading := by
  intro found
  rw [read, Option.some.injEq]
  constructor
  · rintro rfl
    exact ⟨fun _ absent => absurd absent List.not_mem_nil, rfl⟩
  · rintro ⟨-, rfl⟩
    rfl

theorem some (value : β) : Recovers ([] : List α) value (some value) := of_eq rfl

theorem eq_ite (recovers : Recovers numbers value reading) :
    reading = if numbers.all Scalar.isFinite then Option.some value else none := by
  split
  · rename_i finite
    exact (recovers value).mpr ⟨List.all_eq_true.mp finite, rfl⟩
  · rename_i infinite
    refine Option.eq_none_iff_forall_ne_some.mpr fun found read => infinite ?_
    exact List.all_eq_true.mpr ((recovers found).mp read).1

theorem bind {other : γ} {next : β → Option γ} (first : Recovers numbers value reading)
    (second : Recovers others other (next value)) :
    Recovers (numbers ++ others) other (reading >>= next) := by
  intro found
  simp only [Option.bind_eq_bind, Option.bind_eq_some_iff, List.forall_mem_append]
  constructor
  · rintro ⟨middle, read, later⟩
    obtain ⟨finite, rfl⟩ := (first middle).mp read
    obtain ⟨rest, rfl⟩ := (second found).mp later
    exact ⟨⟨finite, rest⟩, rfl⟩
  · rintro ⟨⟨finite, rest⟩, rfl⟩
    exact ⟨value, (first value).mpr ⟨finite, rfl⟩, (second _).mpr ⟨rest, rfl⟩⟩

theorem next {other : γ} {next : β → Option γ} (first : Recovers ([] : List α) value reading)
    (second : Recovers others other (next value)) : Recovers others other (reading >>= next) :=
  first.bind second

theorem last {other : γ} {next : β → Option γ} (first : Recovers numbers value reading)
    (second : next value = Option.some other) : Recovers numbers other (reading >>= next) := by
  have both := first.bind (of_eq second : Recovers ([] : List α) other _)
  rwa [List.append_nil] at both

theorem map (f : β → γ) (first : Recovers numbers value reading) :
    Recovers numbers (f value) (reading.map f) := by
  rw [Option.map_eq_bind]
  exact first.last rfl

theorem mapM {δ : Type} {write : β → δ} {read : δ → Option γ} {view : β → γ} {numbers : β → List α}
    {items : List β}
    (each : ∀ item ∈ items, Recovers (numbers item) (view item) (read (write item))) :
    Recovers (items.flatMap numbers) (items.map view) ((items.map write).mapM read) := by
  induction items with
  | nil => exact some []
  | cons item rest ih =>
    obtain ⟨here, later⟩ := List.forall_mem_cons.mp each
    simp only [List.map_cons, List.mapM_cons, List.flatMap_cons]
    exact here.bind ((ih later).last rfl)

theorem mapM_plain {δ : Type} {write : β → δ} {read : δ → Option γ} {view : β → γ} {items : List β}
    (each : ∀ item ∈ items, Recovers ([] : List α) (view item) (read (write item))) :
    Recovers ([] : List α) (items.map view) ((items.map write).mapM read) := by
  have none : items.flatMap (fun _ => ([] : List α)) = [] :=
    List.flatMap_eq_nil_iff.mpr fun _ _ => rfl
  exact none ▸ mapM each

end Recovers

open Json

theorem recovers_number (x : α) : Recovers [x] x (number? (NumberFormat.exact x)) := by
  intro found
  rw [List.forall_mem_singleton, NumberFormat.exact]
  by_cases finite : Scalar.isFinite x = true
  · rw [if_pos finite, number?, if_pos finite, Option.some.injEq]
    exact ⟨fun same => ⟨finite, same.symm⟩, fun ⟨_, same⟩ => same.symm⟩
  · rw [if_neg finite]
    exact ⟨nofun, fun ⟨sound, _⟩ => absurd sound finite⟩

theorem recovers_nat {n : Nat} (fits : n < Word.limit) :
    Recovers ([] : List α) n (nat? (.ofNat n : Json α)) := by
  apply Recovers.of_eq
  have below : (n : Int) < (Word.limit : Int) := by exact_mod_cast fits
  simp [nat?, Json.ofNat, below]

theorem recovers_list {write : β → Json α} {read : Json α → Option β} {numbers : β → List α}
    {items : List β} (each : ∀ item ∈ items, Recovers (numbers item) item (read (write item))) :
    Recovers (items.flatMap numbers) items (list? read (.array (items.map write))) := by
  have all : Recovers (items.flatMap numbers) (items.map fun item => item)
      ((items.map write).mapM read) := Recovers.mapM each
  rwa [List.map_id'] at all

/-- A list of parts without numbers. -/
theorem recovers_plain_list {write : β → Json α} {read : Json α → Option β} {items : List β}
    (each : ∀ item ∈ items, Recovers ([] : List α) item (read (write item))) :
    Recovers ([] : List α) items (list? read (.array (items.map write))) := by
  have all : Recovers ([] : List α) (items.map fun item => item) ((items.map write).mapM read) :=
    Recovers.mapM_plain each
  rwa [List.map_id'] at all

theorem recovers_nats {ns : List Nat} (fit : ∀ n ∈ ns, n < Word.limit) :
    Recovers ([] : List α) ns (list? nat? (.ofNats ns : Json α)) :=
  recovers_plain_list fun n member => recovers_nat (fit n member)

theorem recovers_numbers (values : List α) :
    Recovers values values (list? number? (numbers NumberFormat.exact values)) := by
  have all : Recovers (values.flatMap fun x => [x]) values
      (list? number? (numbers NumberFormat.exact values)) :=
    recovers_list fun x _ => recovers_number x
  rwa [List.flatMap_singleton'] at all

omit [Scalar α] in
/-- Of distinct names every one has only the value that stands beside it. -/
theorem filter_name {fields : List (String × Json α)} (distinct : (fields.map Prod.fst).Nodup)
    {field : String × Json α} (member : field ∈ fields) :
    fields.filter (·.1 == field.1) = [field] := by
  induction fields with
  | nil => cases member
  | cons first rest ih =>
    obtain ⟨new, distinct⟩ := List.nodup_cons.mp distinct
    rcases List.mem_cons.mp member with rfl | later
    · have others : rest.filter (·.1 == field.1) = [] := by
        refine List.filter_eq_nil_iff.mpr fun other below same => new ?_
        exact eq_of_beq same ▸ List.mem_map_of_mem below
      rw [List.filter_cons_of_pos (by simp), others]
    · have different : first.1 ≠ field.1 := fun same =>
        new (same ▸ List.mem_map_of_mem later)
      rw [List.filter_cons_of_neg (by simpa using different)]
      exact ih distinct later

/-- A record is read from an object that has a field for each member, under different names. -/
theorem recovers_record {fields : List (String × Json α)} {names : List String}
    (named : fields.map Prod.fst = names) (distinct : names.Nodup) :
    Recovers ([] : List α) (fields.map Prod.snd) (record? names (.object fields)) := by
  subst named
  have members : Recovers ([] : List α) (fields.map fun field => some field.2)
      (members? (fields.map Prod.fst) (.object fields)) := by
    refine Recovers.mapM_plain fun field member => Recovers.of_eq ?_
    rw [filter_name distinct member]
  exact members.next (Recovers.mapM_plain fun field _ => .some field.2)

theorem recovers_payload {form : PayloadForm} {fields : List (String × Json α)}
    {names : List String} (named : fields.map Prod.fst = names) (distinct : names.Nodup) :
    Recovers ([] : List α) (fields.map Prod.snd) (payload? form names (.object fields)) := by
  have record := recovers_record named distinct
  cases form <;> exact record

end LatentGrammar
