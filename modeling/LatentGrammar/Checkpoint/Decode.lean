import LatentGrammar.Checkpoint.Encode
import LatentGrammar.Json.Decode

namespace LatentGrammar

open Json

variable {α : Type} [Scalar α]

/-- A number of a model: a fraction, if finite, or a whole number. -/
def number? : Json α → Option α
  | .fraction x => if Scalar.isFinite x then some x else none
  | .whole n => some (n : α)
  | _ => none

/-- The largest word stands for the absence of a parent. -/
def Ancestry.parentOfCode (code : Nat) : Option Nat :=
  if code == Word.greatest then none else some code

def Ancestry.decode? (json : Json α) : Option Ancestry := do
  let [parents] ← record? ["parents"] json | none
  return ⟨(← list? nat? parents).map Ancestry.parentOfCode⟩

/-- The payload of smoothing across siblings is its strength. -/
def Smoothing.decode? (form : PayloadForm) (json : Json α) : Option (Smoothing α) := do
  match ← alternative? json with
  | ("AcrossParentBits", some payload) =>
    let [strength] ← payload? form ["strength"] payload | failure
    return .acrossSiblings (← number? strength)
  | _ => if (← constant? json) == "None" then return .none else failure

def Production.decode? (form : PayloadForm) (json : Json α) : Option Production := do
  match ← alternative? json with
  | ("Unary", some payload) =>
    let [parent, child] ← payload? form ["parent", "child"] payload | none
    return .unary (← nat? parent) (← nat? child)
  | ("Binary", some payload) =>
    let [parent, left, right] ← payload? form ["parent", "left", "right"] payload | none
    return .binary (← nat? parent) (← nat? left) (← nat? right)
  | _ => none

def RuleBlock.decode? (json : Json α) : Option (RuleBlock α) := do
  let [dims, cells] ← record? ["dims", "data"] json | none
  let [parents, lefts, rights] ← list? nat? dims | none
  return ⟨parents, lefts, rights, (← list? number? cells).toArray⟩

def Grammar.decode? (form : PayloadForm) (json : Json α) : Option (Grammar α) := do
  let [substates, root, rules, smoothing, threshold, ancestry] ←
    record? ["substates", "root", "rules", "smoother", "threshold", "lineage"] json | none
  return {
    substates := ← list? nat? substates
    root := ← nat? root
    rules := .ofList (← list? (pair? (Production.decode? form) RuleBlock.decode?) rules)
    smoothing := ← Smoothing.decode? form smoothing
    threshold := ← number? threshold
    ancestry := ← list? Ancestry.decode? ancestry }

def Estimator.decode? (json : Json α) : Option Estimator := do
  match ← constant? json with
  | "Sophisticated" => return .sophisticated
  | "Simple" => return .simple
  | _ => none

def LexiconSettings.decode? (json : Json α) : Option (LexiconSettings α) := do
  let [kind, wordSmoothing, signatureSmoothing, smoothingCutoff, threshold] ← record?
    ["kind", "word_smoothing", "signature_smoothing", "smoothing_cutoff", "threshold"] json | none
  return {
    kind := ← Estimator.decode? kind
    wordSmoothing := ← number? wordSmoothing
    signatureSmoothing := ← number? signatureSmoothing
    smoothingCutoff := ← number? smoothingCutoff
    threshold := ← number? threshold }

/-- A table of named values; the last value of each name wins. -/
def NameTable.decode? {β : Type} (value? : Json α → Option β) (json : Json α) :
    Option (NameTable β) :=
  (entries? value? json).map NameTable.ofList

def EmissionTables.decode? (json : Json α) : Option (EmissionTables α) := do
  let [tagCounts, wordCounts, wordTotals, totalTokens, unseenTagCounts, unseenSignatureCounts,
      unseenSignatureTotals, unseenTotal] ← record?
    ["tag_counts", "word_counts", "word_totals", "total_tokens", "unseen_tag_counts",
      "unseen_signature_counts", "unseen_signature_totals", "unseen_total"] json | none
  return {
    tagCounts := ← list? (list? number?) tagCounts
    wordCounts := ← list? (NameTable.decode? (list? number?)) wordCounts
    wordTotals := ← NameTable.decode? number? wordTotals
    totalTokens := ← number? totalTokens
    unseenTagCounts := ← list? (list? number?) unseenTagCounts
    unseenSignatureCounts := ← list? (NameTable.decode? (list? number?)) unseenSignatureCounts
    unseenSignatureTotals := ← NameTable.decode? number? unseenSignatureTotals
    unseenTotal := ← number? unseenTotal }

def Lexicon.decode? (form : PayloadForm) (json : Json α) : Option (Lexicon α) := do
  let [substates, root, settings, tables, smoothing, ancestry] ←
    record? ["substates", "root", "params", "stats", "smoother", "lineage"] json | none
  return {
    substates := ← list? nat? substates
    root := ← nat? root
    settings := ← LexiconSettings.decode? settings
    tables := ← EmissionTables.decode? tables
    smoothing := ← Smoothing.decode? form smoothing
    ancestry := ← list? Ancestry.decode? ancestry }

def Vocabulary.decode? (json : Json α) : Option Vocabulary := do
  let [labels, rootLabel] ← record? ["labels", "root_label"] json | none
  return .unindexed (← list? text? labels) (← text? rootLabel)

def Treebank.Direction.decode? (json : Json α) : Option Treebank.Direction := do
  match ← constant? json with
  | "Left" => return .left
  | "Right" => return .right
  | _ => none

def Checkpoint.decode? (json : Json α) : Option (Checkpoint α) := do
  let [lexicon, grammar, vocabulary, substates, vertical, horizontal, binarization] ← record?
    ["lexicon", "grammar", "vocabulary", "substates", "vertical", "horizontal", "binarization"]
    json | none
  return {
    model := ⟨← Grammar.decode? .namedOrListed grammar, ← Lexicon.decode? .namedOrListed lexicon⟩
    vocabulary := (← Vocabulary.decode? vocabulary).indexed
    substates := ← list? nat? substates
    vertical := ← nat? vertical
    horizontal := ← nat? horizontal
    binarization := ← Treebank.Direction.decode? binarization }

namespace Training

def SmoothingPolicy.decode? (json : Json α) : Option SmoothingPolicy := do
  match ← constant? json with
  | "AcrossParentBits" => return .acrossSiblings
  | "None" => return .none
  | _ => failure

/-- Settings of which all but the paths have to be present. -/
def Config.decode? (json : Json α) : Option (Config α) := do
  let names := ["output", "train_path", "validation_path", "resume", "rounds", "merge_percentage",
    "separate_merge_threshold", "split_max_iterations", "split_min_iterations",
    "merge_max_iterations", "merge_min_iterations", "smooth_max_iterations", "patience",
    "smoothing", "substates", "vertical_markovization", "horizontal_markovization",
    "binarization", "seed", "randomization", "filter", "rare_word_threshold",
    "really_rare_threshold", "word_smoothing", "signature_smoothing", "lexicon",
    "max_sentence_length", "train_fraction", "train_on_dev", "lowercase",
    "keep_function_labels", "baseline", "no_split", "allow_more_substates_than_counts"]
  let members ← members? names json
  let path (index : Nat) : Option (Option String) :=
    match members[index]? with
    | some (some json) => optional? text? json
    | _ => some none
  let rest ← (members.drop 4).mapM id
  let [rounds, mergePercentage, separateMergeThreshold, splitMaxIterations, splitMinIterations,
    mergeMaxIterations, mergeMinIterations, smoothMaxIterations, patience, smoothing, substates,
    vertical, horizontal, binarization, seed, randomization, filter, rareWordThreshold,
    reallyRareThreshold, wordSmoothing, signatureSmoothing, lexicon, maxSentenceLength,
    trainFraction, trainOnDev, lowercase, keepFunctionLabels, baseline, noSplit,
    allowMoreSubstatesThanCounts] := rest | none
  return {
    output := ← path 0
    trainPath := ← path 1
    validationPath := ← path 2
    resume := ← path 3
    rounds := ← nat? rounds
    mergePercentage := ← number? mergePercentage
    separateMergeThreshold := ← bool? separateMergeThreshold
    splitMaxIterations := ← nat? splitMaxIterations
    splitMinIterations := ← nat? splitMinIterations
    mergeMaxIterations := ← nat? mergeMaxIterations
    mergeMinIterations := ← nat? mergeMinIterations
    smoothMaxIterations := ← nat? smoothMaxIterations
    patience := ← nat? patience
    smoothing := ← SmoothingPolicy.decode? smoothing
    substates := ← nat? substates
    vertical := ← nat? vertical
    horizontal := ← nat? horizontal
    binarization := ← Treebank.Direction.decode? binarization
    seed := ← nat? seed
    randomization := ← number? randomization
    filter := ← number? filter
    rareWordThreshold := ← nat? rareWordThreshold
    reallyRareThreshold := ← nat? reallyRareThreshold
    wordSmoothing := ← number? wordSmoothing
    signatureSmoothing := ← number? signatureSmoothing
    lexicon := ← Estimator.decode? lexicon
    maxSentenceLength := ← nat? maxSentenceLength
    trainFraction := ← number? trainFraction
    trainOnDev := ← bool? trainOnDev
    lowercase := ← bool? lowercase
    keepFunctionLabels := ← bool? keepFunctionLabels
    baseline := ← bool? baseline
    noSplit := ← bool? noSplit
    allowMoreSubstatesThanCounts := ← bool? allowMoreSubstatesThanCounts }

def Config.override? (json : Json α) : Option (Config α) := do
  let .object base := (Config.standard : Config α).encode .exact | none
  let .object _ := json | none
  Config.decode? (.object (base.map fun (name, value) => (name, (json.field? name).getD value)))

end Training

end LatentGrammar
