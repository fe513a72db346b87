import LatentGrammar.Proofs.Schedule.Frames
import LatentGrammar.Proofs.Bookkeeping.Lexicons

/-! What emission scores are divided by. Scoring is written once more with a division that may be
chosen freely; whatever it answers to divisors that are not positive, the scores of a trained lexicon
stay the same, if the weights of smoothing are not negative and signatures have a positive one. With
a weight of zero a signature that was never counted is divided by zero. -/

namespace LatentGrammar

variable {α : Type} [Scalar α]

/-- As `Smoothing.mix`. -/
def Smoothing.mixBy (divide : α → α → Except Fault α) (strength value : α) (family : List α) :
    Except Fault α :=
  if family.length < 2 then return value
  else do
    let siblings ← divide (Scalar.sum family - value) ((family.length - 1 : Nat) : α)
    return (1 - strength) * value + strength * siblings

/-- As `Smoothing.smooth`. -/
def Smoothing.smoothBy (divide : α → α → Except Fault α) (smoothing : Smoothing α)
    (ancestry : Ancestry) (values : List α) : Except Fault (List α) :=
  match smoothing with
  | .none => return values
  | .acrossSiblings strength =>
    if ancestry.size == values.length then
      let entries := ancestry.parents.zip values
      entries.mapM fun (parent, value) =>
        mixBy divide strength value ((entries.filter (·.1 == parent)).map (·.2))
    else return values

namespace Lexicon

/-- As `tagGivenWord`. -/
def tagGivenWordBy (divide : α → α → Except Fault α) (settings : LexiconSettings α)
    (wordCount wordTotal tagGivenSignature : α) : Except Fault α :=
  if settings.smoothingCutoff < wordTotal then divide wordCount wordTotal
  else if 0 < wordTotal then
    divide (wordCount + settings.wordSmoothing * tagGivenSignature)
      (wordTotal + settings.wordSmoothing)
  else return tagGivenSignature

/-- As `tagGivenSignature`. -/
def tagGivenSignatureBy (divide : α → α → Except Fault α) (settings : LexiconSettings α)
    (signatureCount signatureTotal tagUnseen : α) : Except Fault α :=
  divide (signatureCount + settings.signatureSmoothing * tagUnseen)
    (signatureTotal + settings.signatureSmoothing)

/-- A word's share of all tokens; a word that was never seen is one further token. -/
def wordShareBy (divide : α → α → Except Fault α) (totalTokens wordTotal : α) : Except Fault α :=
  if 0 < wordTotal then divide wordTotal totalTokens else divide 1 (totalTokens + 1)

/-- As `sophisticatedScores`. The signature's estimate is made also where the word was seen often. -/
def sophisticatedScoresBy (divide : α → α → Except Fault α) (lexicon : Lexicon α) (word : String)
    (state position size : Nat) : Except Fault (List α) := do
  let tables := lexicon.tables
  if tables.totalTokens ≤ 0 then return ← fill size 0
  let sign := signature word position
  let wordTotal := (tables.wordTotals.get? word).getD 0
  let signatureTotal := (tables.unseenSignatureTotals.get? sign).getD 0
  let wordCounts := (← fetch tables.wordCounts state).get? word
  let signatureCounts := (← fetch tables.unseenSignatureCounts state).get? sign
  let wordShare ← wordShareBy divide tables.totalTokens wordTotal
  tabulate size fun s => do
    let tagShare ← divide (← fetch (← fetch tables.tagCounts state) s) tables.totalTokens
    if tagShare ≤ 0 then return 0
    let tagUnseen ←
      if 0 < tables.unseenTotal then do
        divide (← fetch (← fetch tables.unseenTagCounts state) s) tables.unseenTotal
      else pure tagShare
    let givenSignature ← tagGivenSignatureBy divide lexicon.settings (← countOf signatureCounts s)
      signatureTotal tagUnseen
    let givenWord ← tagGivenWordBy divide lexicon.settings (← countOf wordCounts s) wordTotal
      givenSignature
    divide (givenWord * wordShare) tagShare

/-- As `simpleScores`. -/
def simpleScoresBy (divide : α → α → Except Fault α) (lexicon : Lexicon α) (word : String)
    (state position size : Nat) : Except Fault (List α) := do
  let tables := lexicon.tables
  let key := if tables.wordTotals.contains word then word else signature word position
  let types : α := ((tables.wordTotals.length : Nat) : α)
  let smoothing := lexicon.settings.wordSmoothing
  let counts := (← fetch tables.wordCounts state).get? key
  tabulate size fun s => do
    let tagTotal ← fetch (← fetch tables.tagCounts state) s
    if tagTotal ≤ 0 then return 0
    let count ← countOf counts s
    divide (count + (← divide smoothing (types + 1))) (tagTotal + smoothing)

/-- As `score`. -/
def scoreBy (divide : α → α → Except Fault α) (lexicon : Lexicon α) (word : String)
    (state position : Nat) : Except Fault (List α) := do
  let size ← fetch lexicon.substates state
  let scores ← match lexicon.settings.kind with
    | .sophisticated => lexicon.sophisticatedScoresBy divide word state position size
    | .simple => lexicon.simpleScoresBy divide word state position size
  let smoothed ← lexicon.smoothing.smoothBy divide (← fetch lexicon.ancestry state) scores
  return smoothed.map fun score => if score < lexicon.settings.threshold then 0 else score

/-- All divisors have the property, each in the circumstances in which it is divided by. -/
structure Divisors (property : α → Prop) (lexicon : Lexicon α) : Prop where
  tokens : ¬lexicon.tables.totalTokens ≤ 0 → property lexicon.tables.totalTokens
  further : ¬lexicon.tables.totalTokens ≤ 0 → property (lexicon.tables.totalTokens + 1)
  tagShare : ∀ share : α, ¬share ≤ 0 → property share
  unseen : 0 < lexicon.tables.unseenTotal → property lexicon.tables.unseenTotal
  sign : lexicon.settings.kind = .sophisticated → ∀ name,
    property ((lexicon.tables.unseenSignatureTotals.get? name).getD 0 +
      lexicon.settings.signatureSmoothing)
  frequent : ∀ total, lexicon.settings.smoothingCutoff < total → property total
  seen : ∀ total : α, 0 < total → property (total + lexicon.settings.wordSmoothing)
  types : property (((lexicon.tables.wordTotals.length : Nat) : α) + 1)
  tagTotal : ∀ total : α, ¬total ≤ 0 → property (total + lexicon.settings.wordSmoothing)
  siblings : ∀ count, 2 ≤ count → property ((count - 1 : Nat) : α)

variable {divide : α → α → Except Fault α} {property : α → Prop} {lexicon : Lexicon α}

theorem tagGivenWordBy_eq (divides : ∀ x y, property y → divide x y = .ok (x / y))
    (divisors : lexicon.Divisors property) (wordCount wordTotal tagGivenSignature : α) :
    tagGivenWordBy divide lexicon.settings wordCount wordTotal tagGivenSignature =
      .ok (tagGivenWord lexicon.settings wordCount wordTotal tagGivenSignature) := by
  unfold tagGivenWordBy tagGivenWord
  split
  · next frequent => exact divides _ _ (divisors.frequent _ frequent)
  · split
    · next seen => exact divides _ _ (divisors.seen _ seen)
    · rfl

theorem sophisticatedScoresBy_eq (divides : ∀ x y, property y → divide x y = .ok (x / y))
    (divisors : lexicon.Divisors property) (kind : lexicon.settings.kind = .sophisticated)
    (word : String) (state position size : Nat) :
    lexicon.sophisticatedScoresBy divide word state position size =
      lexicon.sophisticatedScores word state position size := by
  unfold sophisticatedScoresBy sophisticatedScores
  by_cases none : lexicon.tables.totalTokens ≤ 0
  · simp only [none, if_true]
  have tokens (x : α) := divides x _ (divisors.tokens none)
  have share (total : α) : wordShareBy divide lexicon.tables.totalTokens total =
      .ok (if 0 < total then total / lexicon.tables.totalTokens
        else 1 / (lexicon.tables.totalTokens + 1)) := by
    unfold wordShareBy
    split
    · exact tokens total
    · exact divides 1 _ (divisors.further none)
  have sign (count tagUnseen : α) : tagGivenSignatureBy divide lexicon.settings count
      ((lexicon.tables.unseenSignatureTotals.get? (signature word position)).getD 0) tagUnseen =
        .ok (tagGivenSignature lexicon.settings count
          ((lexicon.tables.unseenSignatureTotals.get? (signature word position)).getD 0) tagUnseen) :=
    divides _ _ (divisors.sign kind _)
  simp only [none, if_false, tokens, share, sign, tagGivenWordBy_eq divides divisors, ok_bind]
  refine bind_congr fun words => bind_congr fun signs =>
    congrArg (tabulate size) (funext fun s => bind_congr fun tags => bind_congr fun tag => ?_)
  split
  · rfl
  · next positive =>
    have inverted (x : α) := divides x _ (divisors.tagShare _ positive)
    simp only [inverted]
    split
    · next unseen =>
      simp only [divides _ _ (divisors.unseen unseen), ok_bind]
      rfl
    · rfl

theorem simpleScoresBy_eq (divides : ∀ x y, property y → divide x y = .ok (x / y))
    (divisors : lexicon.Divisors property) (word : String) (state position size : Nat) :
    lexicon.simpleScoresBy divide word state position size =
      lexicon.simpleScores word state position size := by
  unfold simpleScoresBy simpleScores
  have types (x : α) := divides x _ divisors.types
  simp only [types, ok_bind]
  refine bind_congr fun words => congrArg (tabulate size) (funext fun s => ?_)
  refine bind_congr fun tags => bind_congr fun total => ?_
  split
  · rfl
  · next positive =>
    refine bind_congr fun count => ?_
    exact divides _ _ (divisors.tagTotal total positive)

theorem smoothBy_eq (divides : ∀ x y, property y → divide x y = .ok (x / y))
    (divisors : lexicon.Divisors property) (smoothing : Smoothing α) (ancestry : Ancestry)
    (values : List α) :
    smoothing.smoothBy divide ancestry values = .ok (smoothing.smooth ancestry values) := by
  have mixed (strength value : α) (family : List α) :
      Smoothing.mixBy divide strength value family = .ok (Smoothing.mix strength value family) := by
    unfold Smoothing.mixBy Smoothing.mix
    split
    · rfl
    · next several =>
      rw [divides _ _ (divisors.siblings _ (Nat.le_of_not_lt several)), ok_bind]
      rfl
  unfold Smoothing.smoothBy Smoothing.smooth
  cases smoothing with
  | none => rfl
  | acrossSiblings strength =>
    dsimp only
    split
    · exact mapM_eq_map fun entry _ => mixed _ _ _
    · rfl

/-- A division that answers as expected to all divisors gives the scores. -/
theorem scoreBy_eq (divides : ∀ x y, property y → divide x y = .ok (x / y))
    (divisors : lexicon.Divisors property) (word : String) (state position : Nat) :
    lexicon.scoreBy divide word state position = lexicon.score word state position := by
  unfold scoreBy score
  simp only [smoothBy_eq divides divisors, ok_bind, simpleScoresBy_eq divides divisors]
  refine bind_congr fun size => ?_
  cases kind : lexicon.settings.kind with
  | sophisticated => rw [sophisticatedScoresBy_eq divides divisors kind]
  | simple => rfl

theorem scoreBy_div (lexicon : Lexicon α) (word : String) (state position : Nat) :
    lexicon.scoreBy (fun x y => .ok (x / y)) word state position =
      lexicon.score word state position := by
  have divisors : lexicon.Divisors fun _ => True := by
    constructor <;> intros <;> trivial
  exact scoreBy_eq (fun _ _ _ => rfl) divisors word state position

end Lexicon

section Training

open Training

/-- What the first counts have, and what counting trees and tying rare words keep, the counts have
from which a model is re-estimated. -/
theorem Training.expectAfresh_keeps {model : Model α} {invariant : EmissionCounts α → Prop}
    (begun : Delivers Any invariant (EmissionCounts.after model.lexicon))
    (counts : ∀ counts policy tree, invariant counts →
      Delivers Any invariant (counts.countScored policy tree))
    (ties : ∀ counts rare, invariant counts → Delivers Any invariant (counts.tieRare rare))
    (rare : α) (forest : Forest α) (withRules : Bool) :
    Delivers Any (fun expectation => invariant expectation.emissions)
      (expectAfresh model rare forest withRules).2 := by
  have start : Delivers Any (fun start => invariant start.2) (countsAfter model withRules) := by
    cases withRules with
    | false => exact begun.bind fun _ holds => holds
    | true => exact (delivers_any _).bind fun _ _ => begun.bind fun _ holds => holds
  unfold expectAfresh
  cases started : countsAfter model withRules with
  | error fault => trivial
  | ok first =>
    rw [started] at start
    have initial : invariant (⟨.start, first.1, first.2⟩ : Expectation α).emissions := start
    rw [Pass.ofSweep_snd, expect_conclusion]
    have each (index : Nat) (tree : LatentTree α) (expectation : Expectation α) (_ : True)
        (holds : invariant expectation.emissions) :
        Delivers Any (fun next => True ∧ invariant next.2.emissions)
          (expectTree model rare forest.size index tree expectation) := by
      refine (delivers_any _).bind fun scored _ => (delivers_any _).bind fun mass _ => ?_
      refine Delivers.ite (fun _ => ?_) fun _ => ⟨trivial, holds⟩
      refine (counts _ _ scored holds).bind fun emissions kept => ?_
      exact (delivers_any _).bind fun _ _ => (delivers_any _).bind fun _ _ => ⟨trivial, kept⟩
    have swept : Delivers Any (fun expectation : Expectation α => invariant expectation.emissions)
        (expectTrees model rare forest first.1 first.2).conclusion :=
      (Forest.sweep_delivers each (fun _ _ => trivial) initial 0).2
    exact swept.bind fun expectation holds =>
      (ties expectation.emissions rare holds).bind fun _ kept => kept

end Training

section Exact

variable {α γ : Type} [ExactScalar α] [Draws γ α] {settings : LexiconSettings α}

/-- The lexicon has the settings, and no signature was seen less often than never. -/
structure Lexicon.Tallied (settings : LexiconSettings α) (lexicon : Lexicon α) : Prop where
  settings_eq : lexicon.settings = settings
  signatures : ∀ name, 0 ≤ (lexicon.tables.unseenSignatureTotals.get? name).getD 0

namespace EmissionCounts

variable {counts : EmissionCounts α}

theorem add_tallied (tallied : counts.estimate.Tallied settings) (policy : UnseenPolicy α)
    (state : Nat) (word : String) (position : Nat) (weights : List α) :
    Delivers Any (·.estimate.Tallied settings) (counts.add policy state word position weights) := by
  refine (delivers_any _).bind fun _ _ => (delivers_any _).bind fun _ _ => ?_
  refine Delivers.ite (fun _ => ?_) fun _ => ⟨tallied.settings_eq, tallied.signatures⟩
  refine (delivers_any _).bind fun _ _ => (delivers_any _).bind fun _ _ => ?_
  refine ⟨tallied.settings_eq, fun name => ?_⟩
  show 0 ≤ ((EmissionTables.increment _ _).get? name).getD 0
  rw [NameTable.getD_get?_increment]
  refine add_nonneg (tallied.signatures name) ?_
  split
  · exact zero_le_one
  · exact le_refl 0

theorem empty_signatures (substates : List Nat) :
    Delivers Any (fun tables : EmissionTables α => tables.unseenSignatureTotals = [])
      (EmissionTables.empty substates) :=
  (delivers_any _).bind fun _ _ => rfl

theorem start_tallied (substates : List Nat) (root : Nat) (settings : LexiconSettings α) :
    Delivers Any (·.estimate.Tallied settings) (start substates root settings) := by
  refine (delivers_any _).bind fun _ _ => (empty_signatures substates).bind fun tables none => ?_
  exact ⟨rfl, fun name => by simp [estimate, none, NameTable.get?]⟩

theorem after_tallied {lexicon : Lexicon α} (tallied : lexicon.Tallied settings) :
    Delivers Any (·.estimate.Tallied settings) (after lexicon) := by
  refine (empty_signatures lexicon.substates).bind fun tables none => ?_
  exact ⟨tallied.settings_eq, fun name => by simp [estimate, none, NameTable.get?]⟩

theorem countScored_tallied (tallied : counts.estimate.Tallied settings) (policy : UnseenPolicy α)
    (tree : LatentTree α) :
    Delivers Any (·.estimate.Tallied settings) (counts.countScored policy tree) :=
  countScored_keeps (delivers_any _) tallied fun _ _ _ _ state word _ position _ tallied =>
    add_tallied tallied policy state word position _

theorem tieRare_tallied (tallied : counts.estimate.Tallied settings) (rare : α) :
    Delivers Any (·.estimate.Tallied settings) (counts.tieRare rare) :=
  (delivers_any _).bind fun _ _ => ⟨tallied.settings_eq, tallied.signatures⟩

end EmissionCounts

namespace Training

theorem firstModel_tallied (forest : Forest α) (start : FirstModelSettings α) (stream : γ) :
    Delivers Any (·.1.lexicon.Tallied start.lexicon) (firstModel forest start stream) := by
  unfold firstModel
  have empty := EmissionCounts.start_tallied forest.substates start.root start.lexicon
  refine empty.bind fun counts tallied => (delivers_any _).bind fun scratch _ => ?_
  refine (countAllUnscored_keeps tallied _ (fun policy _ word state position _ _ _ _ tallied =>
    EmissionCounts.add_tallied tallied policy state word position _) _ _ _).bind
    fun emissions tallied => ?_
  refine (delivers_any _).bind fun _ _ => (delivers_any _).bind fun _ _ => ?_
  refine (EmissionCounts.tieRare_tallied tallied _).bind fun emissions tallied => ?_
  exact (delivers_any _).bind fun _ _ => tallied

theorem nextModel_tallied {model : Model α} (tallied : model.lexicon.Tallied settings) (rare : α)
    (forest : Forest α) :
    Delivers Any (·.1.lexicon.Tallied settings) (nextModel model rare forest).2 := by
  refine (expectAfresh_keeps (EmissionCounts.after_tallied tallied)
    (fun _ policy tree tallied => EmissionCounts.countScored_tallied tallied policy tree)
    (fun _ rare tallied => EmissionCounts.tieRare_tallied tallied rare) rare forest true).bind ?_
  intro expectation tallied
  unfold maximize
  cases expectation.rules with
  | none => exact tallied
  | some rules => exact (delivers_any _).bind fun _ _ => tallied

/-- The models that training with some settings of the lexicon comes to: a first model of some trees,
re-estimated any number of times. -/
inductive Trained (settings : LexiconSettings α) : Model α → Prop where
  | first {γ : Type} [Draws γ α] {forest : Forest α} {start : FirstModelSettings α}
      {stream rest : γ} {model : Model α} (same : start.lexicon = settings)
      (success : firstModel forest start stream = .ok (model, rest)) : Trained settings model
  | next {model next : Model α} {forest : Forest α} {rare : α} {outcome : Outcome α}
      (trained : Trained settings model)
      (success : (nextModel model rare forest).2 = .ok (next, outcome)) : Trained settings next

theorem Trained.tallied {model : Model α} (trained : Trained settings model) :
    model.lexicon.Tallied settings := by
  induction trained with
  | first same success => exact same ▸ (firstModel_tallied _ _ _).of_ok success
  | next _ success ih => exact (nextModel_tallied ih _ _).of_ok success

/-- Trained lexicons divide by positive numbers only, if weights of smoothing are as they should be. -/
theorem Trained.divides_by_positive {config : Config α} (words : 0 ≤ config.wordSmoothing)
    (signatures : config.lexicon = .sophisticated → 0 < config.signatureSmoothing)
    {model : Model α} (trained : Trained config.lexiconSettings model)
    {divide : α → α → Except Fault α} (divides : ∀ x y, 0 < y → divide x y = .ok (x / y))
    (word : String) (state position : Nat) :
    model.lexicon.scoreBy divide word state position = model.lexicon.score word state position := by
  obtain ⟨same, counted⟩ := trained.tallied
  refine Lexicon.scoreBy_eq divides ?_ word state position
  constructor
  · exact lt_of_not_ge
  · exact fun some => add_pos (lt_of_not_ge some) one_pos
  · exact fun share => lt_of_not_ge
  · exact id
  · intro kind name
    rw [same] at kind ⊢
    exact add_pos_of_nonneg_of_pos (counted name) (signatures kind)
  · intro total frequent
    rw [same] at frequent
    exact (Nat.cast_nonneg config.reallyRareThreshold).trans_lt frequent
  · intro total seen
    rw [same]
    exact add_pos_of_pos_of_nonneg seen words
  · exact Nat.cast_add_one_pos _
  · intro total some
    rw [same]
    exact add_pos_of_pos_of_nonneg (lt_of_not_ge some) words
  · exact fun count several => Nat.cast_pos.mpr (by omega)

/-- Division by positive numbers; there is no answer to other divisors. -/
def dividePositively (x y : Rat) : Except Fault Rat :=
  if 0 < y then .ok (x / y) else .error .outOfRange

/-- A first model of one sentence, by the settings of a run. -/
def firstOf (config : Config Rat) : Except Fault (Model Rat × Unit) :=
  firstModel sampleForest ⟨0, config.lexiconSettings, config.filter, config.noise, Run.rare config⟩ ()

/-- The first model, re-estimated once. -/
def secondOf (config : Config Rat) : Except Fault (Model Rat × Outcome Rat) := do
  let (model, _) ← firstOf config
  (nextModel model (Run.rare config) sampleForest).2

/-- The usual settings, with an output. -/
def plainConfig : Config Rat := { Config.standard with output := some "model" }

theorem plainConfig_divides_by_positive :
    ∃ model, Trained plainConfig.lexiconSettings model ∧ ∀ word state position,
      model.lexicon.scoreBy dividePositively word state position =
        model.lexicon.score word state position := by
  obtain ⟨second, done⟩ : ∃ second, secondOf plainConfig = .ok second :=
    exists_ok_of_isOk (by decide +kernel)
  obtain ⟨⟨first, _⟩, begun, again⟩ := bind_eq_ok_iff.mp done
  have trained : Trained plainConfig.lexiconSettings second.1 := .next (.first rfl begun) again
  exact ⟨second.1, trained, trained.divides_by_positive (by decide +kernel)
    (fun _ => by decide +kernel) fun x y positive => if_pos positive⟩

/-- Settings that are accepted although they give signatures no weight, with no word rare. -/
def unsmoothedConfig : Config Rat :=
  { plainConfig with wordSmoothing := 0, signatureSmoothing := 0, rareWordThreshold := 0 }

/-- Its first model has scores for a word that was seen once, by division but not by division by
positive numbers, since no signature was counted. -/
theorem firstOf_unsmoothedConfig :
    (firstOf unsmoothedConfig).toOption.map (fun made =>
      ((made.1.lexicon.scoreBy (fun x y => .ok (x / y)) "rain" 1 0).isOk,
        (made.1.lexicon.scoreBy dividePositively "rain" 1 0).isOk)) = some (true, false) := by
  decide +kernel

theorem unsmoothedConfig_divides_by_zero :
    unsmoothedConfig.validate.isOk = true ∧
      ∃ model, Trained unsmoothedConfig.lexiconSettings model ∧
        (model.lexicon.score "rain" 1 0).isOk = true ∧
        (model.lexicon.scoreBy dividePositively "rain" 1 0).isOk = false := by
  refine ⟨by decide +kernel, ?_⟩
  have scores := firstOf_unsmoothedConfig
  cases made : firstOf unsmoothedConfig with
  | error fault => simp [made, Except.toOption] at scores
  | ok first =>
    rw [made] at scores
    simp only [Except.toOption, Option.map_some, Option.some.injEq, Prod.mk.injEq,
      Lexicon.scoreBy_div] at scores
    exact ⟨first.1, .first rfl made, scores⟩

end Training

end Exact

end LatentGrammar
