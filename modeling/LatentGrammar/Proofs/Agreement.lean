import LatentGrammar.Proofs.Delivery

/-! Two computations side by side. They agree if both fail with the same fault, or both have results
and these are related; so what is said of two computations is put together from what is said of
their steps. -/

namespace LatentGrammar

variable {ε β β' σ σ' : Type}

/-- The same fault, or related results. -/
inductive Agree (relation : β → β' → Prop) : Except ε β → Except ε β' → Prop
  | ok {one : β} {two : β'} (related : relation one two) : Agree relation (.ok one) (.ok two)
  | error (fault : ε) : Agree relation (.error fault) (.error fault)

namespace Agree

variable {relation : β → β' → Prop} {one : Except ε β} {two : Except ε β'}

theorem refl (result : Except ε β) : Agree Eq result result := by
  cases result with
  | error fault => exact .error fault
  | ok value => exact .ok rfl

theorem eq {one two : Except ε β} (agree : Agree Eq one two) : one = two := by
  cases agree with
  | ok same => rw [same]
  | error fault => rfl

theorem mono {other : β → β' → Prop} (agree : Agree relation one two)
    (implies : ∀ a b, relation a b → other a b) : Agree other one two := by
  cases agree with
  | ok related => exact .ok (implies _ _ related)
  | error fault => exact .error fault

theorem symm (agree : Agree relation one two) : Agree (fun b a => relation a b) two one := by
  cases agree with
  | ok related => exact .ok related
  | error fault => exact .error fault

theorem bind {other : σ → σ' → Prop} {next : β → Except ε σ} {next' : β' → Except ε σ'}
    (first : Agree relation one two) (second : ∀ a b, relation a b → Agree other (next a) (next' b)) :
    Agree other (one >>= next) (two >>= next') := by
  cases first with
  | ok related => exact second _ _ related
  | error fault => exact .error fault

theorem bind_same {other : σ → σ' → Prop} {result : Except ε β} {next : β → Except ε σ}
    {next' : β → Except ε σ'} (second : ∀ value, Agree other (next value) (next' value)) :
    Agree other (result >>= next) (result >>= next') :=
  (refl result).bind fun value _ same => same ▸ second value

theorem mapError {ε' : Type} (f : ε → ε') (agree : Agree relation one two) :
    Agree relation (one.mapError f) (two.mapError f) := by
  cases agree with
  | ok related => exact .ok related
  | error fault => exact .error (f fault)

/-- One side is a function of the other. -/
theorem eq_map {f : β' → β} (agree : Agree (fun a b => a = f b) one two) : one = two.map f := by
  cases agree with
  | ok same => rw [same, Except.map]
  | error fault => rfl

theorem of_ok (agree : Agree relation one two) {value : β} (success : one = .ok value) :
    ∃ other, two = .ok other ∧ relation value other := by
  cases agree with
  | ok related =>
    obtain rfl := Except.ok.inj success
    exact ⟨_, rfl, related⟩
  | error fault => cases success

end Agree

end LatentGrammar
