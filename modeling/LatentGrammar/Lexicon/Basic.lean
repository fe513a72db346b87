import LatentGrammar.Lexicon.Signature
import LatentGrammar.Lexicon.Statistics
import LatentGrammar.Smoothing

/-! Emission models: how likely a substate is to emit a word. Words seen rarely are also counted
under their signatures, so that unknown words get a share of the probability. -/

namespace LatentGrammar

inductive Estimator where
  /-- Tag-given-word estimates, pulled towards the signature's where a word was seen rarely. -/
  | sophisticated
  /-- Relative frequencies; rare words are replaced by their signatures before training. -/
  | simple
  deriving Repr, DecidableEq

structure LexiconSettings (α : Type) where
  kind : Estimator
  /-- Weight of the signature's estimate for a word that was seen. -/
  wordSmoothing : α
  /-- Weight of the tag's own frequency for a signature. -/
  signatureSmoothing : α
  /-- Words seen more often are scored from their own counts only. -/
  smoothingCutoff : α
  threshold : α
  deriving Repr, BEq

def LexiconSettings.standard {α : Type} [Scalar α] : LexiconSettings α where
  kind := .sophisticated
  wordSmoothing := 0.5
  signatureSmoothing := 0.1
  smoothingCutoff := ((10 : Nat) : α)
  threshold := 1e-30

structure LexiconFrame (α : Type) where
  substates : List Nat
  root : Nat
  settings : LexiconSettings α
  smoothing : Smoothing α
  ancestry : List Ancestry
  deriving Repr, BEq

structure Lexicon (α : Type) extends LexiconFrame α where
  tables : EmissionTables α
  deriving Repr

structure EmissionCounts (α : Type) extends LexiconFrame α where
  tables : EmissionTables α
  deriving Repr

namespace Lexicon

variable {α : Type} [Scalar α]

def knows (lexicon : Lexicon α) (word : String) : Bool := lexicon.tables.wordTotals.contains word

def withSmoothing (lexicon : Lexicon α) (smoothing : Smoothing α) : Lexicon α :=
  { lexicon with smoothing }

def same (a b : Lexicon α) : Bool :=
  a.toLexiconFrame == b.toLexiconFrame && a.tables.same b.tables

def countOf (counts : Option (List α)) (substate : Nat) : Except Fault α :=
  match counts with
  | none => .ok 0
  | some counts => fetch counts substate

/-- How a tag's share of a word is estimated: from the word alone if it was seen often, from its
signature alone if it was never seen, and from both otherwise. -/
def tagGivenWord (settings : LexiconSettings α) (wordCount wordTotal tagGivenSignature : α) : α :=
  if settings.smoothingCutoff < wordTotal then wordCount / wordTotal
  else if 0 < wordTotal then
    (wordCount + settings.wordSmoothing * tagGivenSignature) / (wordTotal + settings.wordSmoothing)
  else tagGivenSignature

def tagGivenSignature (settings : LexiconSettings α)
    (signatureCount signatureTotal tagUnseen : α) : α :=
  (signatureCount + settings.signatureSmoothing * tagUnseen)
    / (signatureTotal + settings.signatureSmoothing)

/-- Emission scores of the substates of a category, by inversion of the tag-given-word estimate. -/
def sophisticatedScores (lexicon : Lexicon α) (word : String) (state position size : Nat) :
    Except Fault (List α) := do
  let tables := lexicon.tables
  if tables.totalTokens ≤ 0 then return ← fill size 0
  let sign := signature word position
  let wordTotal := (tables.wordTotals.get? word).getD 0
  let signatureTotal := (tables.unseenSignatureTotals.get? sign).getD 0
  let wordCounts := (← fetch tables.wordCounts state).get? word
  let signatureCounts := (← fetch tables.unseenSignatureCounts state).get? sign
  let wordShare :=
    if 0 < wordTotal then wordTotal / tables.totalTokens else 1 / (tables.totalTokens + 1)
  tabulate size fun s => do
    let tagShare := (← fetch (← fetch tables.tagCounts state) s) / tables.totalTokens
    if tagShare ≤ 0 then return 0
    let tagUnseen ←
      if 0 < tables.unseenTotal then do
        pure ((← fetch (← fetch tables.unseenTagCounts state) s) / tables.unseenTotal)
      else pure tagShare
    let givenSignature := tagGivenSignature lexicon.settings (← countOf signatureCounts s)
      signatureTotal tagUnseen
    let givenWord := tagGivenWord lexicon.settings (← countOf wordCounts s) wordTotal givenSignature
    return givenWord * wordShare / tagShare

/-- Emission scores by relative frequency; unknown words are looked up by their signatures, and one
further word is reckoned with. -/
def simpleScores (lexicon : Lexicon α) (word : String) (state position size : Nat) :
    Except Fault (List α) := do
  let tables := lexicon.tables
  let key := if tables.wordTotals.contains word then word else signature word position
  let types : α := ((tables.wordTotals.length : Nat) : α)
  let smoothing := lexicon.settings.wordSmoothing
  let counts := (← fetch tables.wordCounts state).get? key
  tabulate size fun s => do
    let tagTotal ← fetch (← fetch tables.tagCounts state) s
    if tagTotal ≤ 0 then return 0
    return ((← countOf counts s) + smoothing / (types + 1)) / (tagTotal + smoothing)

def score (lexicon : Lexicon α) (word : String) (state position : Nat) :
    Except Fault (List α) := do
  let size ← fetch lexicon.substates state
  let scores ← match lexicon.settings.kind with
    | .sophisticated => lexicon.sophisticatedScores word state position size
    | .simple => lexicon.simpleScores word state position size
  let smoothed := lexicon.smoothing.smooth (← fetch lexicon.ancestry state) scores
  return smoothed.map fun score => if score < lexicon.settings.threshold then 0 else score

end Lexicon

namespace EmissionCounts

variable {α : Type} [Scalar α]

def start (substates : List Nat) (root : Nat) (settings : LexiconSettings α) :
    Except Fault (EmissionCounts α) := do
  return {
    substates
    root
    settings
    smoothing := .none
    ancestry := ← substates.mapM Ancestry.uniform
    tables := ← EmissionTables.empty substates }

def after (lexicon : Lexicon α) : Except Fault (EmissionCounts α) := do
  let tables ← EmissionTables.empty lexicon.substates
  return { toLexiconFrame := lexicon.toLexiconFrame, tables }

def estimate (counts : EmissionCounts α) : Lexicon α where
  toLexiconFrame := counts.toLexiconFrame
  tables := counts.tables

end EmissionCounts

end LatentGrammar
