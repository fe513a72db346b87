import LatentGrammar.Proofs.Agreement
import LatentGrammar.Proofs.Exact
import LatentGrammar.Model
import LatentGrammar.Training.Start

/-! Draws that change nothing. Where noise of no percent leaves every value as it is, whatever is
drawn, splits and first models do not depend on the random stream that is threaded through them. -/

namespace LatentGrammar

variable {α γ : Type} [Scalar α] [Draws γ α]

/-- Noise of no percent is a factor of one, whatever is drawn. -/
def Noiseless (γ α : Type) [Scalar α] [Draws γ α] : Prop :=
  ∀ stream : γ, (perturbation (0 : α) stream).1 = 1

/-- So it is where zero times what is drawn is zero, and one plus zero is one. -/
theorem Noiseless.of_laws (share : (0 : α) / ((100 : Nat) : α) = 0)
    (product : ∀ stream : γ, (0 : α) * ((Draws.draw stream).1 * ((2 : Nat) : α) - 1) = 0)
    (sum : (1 : α) + 0 = 1) : Noiseless γ α := by
  intro stream
  show 1 + 0 / ((100 : Nat) : α) * ((Draws.draw stream).1 * ((2 : Nat) : α) - 1) = (1 : α)
  rw [share, product, sum]

/-- The same value with whatever rest of the stream. -/
def SameValue {β : Type} (one two : β × γ) : Prop := one.1 = two.1

namespace Noiseless

variable (noiseless : Noiseless γ α)
include noiseless

theorem perturbAll_fst (values : List α) (stream : γ) :
    (perturbAll 0 values stream).1 = values.map (· * 1) := by
  induction values generalizing stream with
  | nil => rfl
  | cons value rest ih => simp only [perturbAll, noiseless stream, ih, List.map_cons]

theorem perturbAll_eq (values : List α) (one two : γ) :
    (perturbAll 0 values one).1 = (perturbAll 0 values two).1 := by
  rw [noiseless.perturbAll_fst, noiseless.perturbAll_fst]

theorem splitRule_agree (old : RuleBlock α) (factors dimensions : Nat × Nat × Nat) (one two : γ) :
    Agree SameValue (old.split factors dimensions 0 one) (old.split factors dimensions 0 two) := by
  refine Agree.bind_same fun cells => .ok ?_
  simp only [SameValue, noiseless.perturbAll_eq cells one two]

theorem splitRules_agree (factors substates : List Nat) (entries : List (Production × RuleBlock α))
    (one two : γ) :
    Agree SameValue (splitRules factors substates 0 entries one)
      (splitRules factors substates 0 entries two) := by
  induction entries generalizing one two with
  | nil => exact .ok rfl
  | cons entry rest ih =>
    obtain ⟨key, old⟩ := entry
    simp only [splitRules]
    refine Agree.bind_same fun factors => Agree.bind_same fun dimensions => ?_
    refine (noiseless.splitRule_agree old _ _ one two).bind fun (new, one) (_, two) same => ?_
    obtain rfl : new = _ := same
    refine (ih one two).bind fun (rest, _) (_, _) same => .ok ?_
    obtain rfl : rest = _ := same
    rfl

theorem splitGrammar_agree (grammar : Grammar α) (counts : List Nat) (unbounded : Bool)
    (one two : γ) :
    Agree SameValue (grammar.split 0 counts unbounded one)
      (grammar.split 0 counts unbounded two) := by
  refine Agree.bind_same fun factors => Agree.bind_same fun substates => ?_
  refine (noiseless.splitRules_agree factors substates grammar.rules.entries one two).bind
    fun (rules, _) (_, _) same => .ok ?_
  obtain rfl : rules = _ := same
  rfl

theorem splitNames_eq (factor : Nat) (table : NameTable (List α)) (one two : γ) :
    (splitNames factor 0 table one).1 = (splitNames factor 0 table two).1 := by
  induction table generalizing one two with
  | nil => rfl
  | cons entry rest ih =>
    simp only [splitNames]
    rw [noiseless.perturbAll_eq _ one two, ih]

theorem splitTables_eq (entries : List (Nat × NameTable (List α))) (one two : γ) :
    (splitTables 0 entries one).1 = (splitTables 0 entries two).1 := by
  induction entries generalizing one two with
  | nil => rfl
  | cons entry rest ih =>
    simp only [splitTables]
    rw [noiseless.splitNames_eq _ _ one two, ih]

theorem splitLexicon_agree (lexicon : Lexicon α) (counts : List Nat) (unbounded : Bool)
    (one two : γ) :
    Agree SameValue (lexicon.split 0 counts unbounded one)
      (lexicon.split 0 counts unbounded two) := by
  refine Agree.bind_same fun factors => Agree.bind_same fun substates => ?_
  refine Agree.bind_same fun _ => Agree.bind_same fun words => Agree.bind_same fun signatures => ?_
  have sameWords := noiseless.splitTables_eq (factors.zip words) one two
  have sameSignatures := noiseless.splitTables_eq (factors.zip signatures)
    (splitTables 0 (factors.zip words) one).2 (splitTables 0 (factors.zip words) two).2
  exact .ok (by simp only [SameValue, sameWords, sameSignatures])

theorem splitModel_agree (model : Model α) (counts : List Nat) (unbounded : Bool) (one two : γ) :
    Agree SameValue (model.split 0 0 counts unbounded one)
      (model.split 0 0 counts unbounded two) := by
  refine (noiseless.splitGrammar_agree model.grammar counts unbounded one two).bind
    fun (grammar, one) (_, two) same => ?_
  obtain rfl : grammar = _ := same
  refine (noiseless.splitLexicon_agree model.lexicon counts unbounded one two).bind
    fun (lexicon, _) (_, _) same => .ok ?_
  obtain rfl : lexicon = _ := same
  rfl

theorem countTokens_agree (policy : UnseenPolicy α) (reference : Option (Lexicon α))
    (tokens : List (LatentTree α × Nat)) (counts : EmissionCounts α) (one two : γ) :
    Agree SameValue (EmissionCounts.countTokens policy 0 reference tokens counts one)
      (EmissionCounts.countTokens policy 0 reference tokens counts two) := by
  induction tokens generalizing counts one two with
  | nil => exact .ok rfl
  | cons token rest ih =>
    obtain ⟨tree, position⟩ := token
    cases tree with
    | preterminal state word scores =>
      simp only [EmissionCounts.countTokens]
      refine Agree.bind_same fun size => ?_
      cases reference with
      | none =>
        simp only [pure_bind]
        rw [noiseless.perturbAll_eq _ one two]
        exact Agree.bind_same fun counts => ih counts _ _
      | some lexicon =>
        refine Agree.bind_same fun weights => ?_
        rw [noiseless.perturbAll_eq weights one two]
        exact Agree.bind_same fun counts => ih counts _ _
    | unary | binary =>
      simp only [EmissionCounts.countTokens]
      exact ih counts one two

theorem countAllUnscored_agree (active : Nat → Bool) (rare : α) (reference : Option (Lexicon α))
    (trees : List (LatentTree α)) (index : Nat) (counts : EmissionCounts α) (one two : γ) :
    Agree SameValue (Training.countAllUnscored active rare 0 reference index trees counts one)
      (Training.countAllUnscored active rare 0 reference index trees counts two) := by
  induction trees generalizing index counts one two with
  | nil => exact .ok rfl
  | cons tree rest ih =>
    simp only [Training.countAllUnscored, EmissionCounts.countUnscored]
    refine (noiseless.countTokens_agree _ reference _ counts one two).bind
      fun (counts, one) (_, two) same => ?_
    obtain rfl : counts = _ := same
    exact ih (index + 1) counts one two

theorem perturbRules_eq (entries : List (Production × RuleBlock α)) (one two : γ) :
    (RuleCounts.perturbRules 0 entries one).1 = (RuleCounts.perturbRules 0 entries two).1 := by
  induction entries generalizing one two with
  | nil => rfl
  | cons entry rest ih =>
    simp only [RuleCounts.perturbRules]
    rw [noiseless.perturbAll_eq _ one two, ih]

/-- Re-estimation does not depend on the stream, also in an arithmetic where zero is less than itself,
so that noise is drawn. -/
theorem estimate_agree (counts : RuleCounts α) (one two : γ) :
    Agree SameValue (counts.estimate 0 one) (counts.estimate 0 two) := by
  unfold RuleCounts.estimate
  by_cases drawn : (0 : α) < 0
  · simp only [drawn, if_true]
    rw [noiseless.perturbRules_eq _ one two]
    exact Agree.bind_same fun grammar => .ok rfl
  · simp only [drawn, if_false]
    exact Agree.bind_same fun grammar => .ok rfl

theorem firstModel_agree (forest : Forest α) {settings : Training.FirstModelSettings α}
    (quiet : settings.randomness = 0) (one two : γ) :
    Agree SameValue (Training.firstModel forest settings one)
      (Training.firstModel forest settings two) := by
  unfold Training.firstModel
  rw [quiet]
  refine Agree.bind_same fun empty => ?_
  refine (noiseless.countAllUnscored_agree _ _ none _ 0 empty one two).bind
    fun (scratch, one) (_, two) same => ?_
  obtain rfl : scratch = _ := same
  refine (noiseless.countAllUnscored_agree _ _ (some scratch.estimate) _ 0 empty one two).bind
    fun (emissions, one) (_, two) same => ?_
  obtain rfl : emissions = _ := same
  refine Agree.bind_same fun rules => Agree.bind_same fun rules => Agree.bind_same
    fun emissions => ?_
  refine (noiseless.estimate_agree rules one two).bind fun (grammar, _) (_, _) same => .ok ?_
  obtain rfl : grammar = _ := same
  rfl

end Noiseless

/-- A stream that never draws a number twice. -/
instance : Draws Nat Rat where
  draw n := (1 / ((n : Rat) + 1), n + 1)

end LatentGrammar
