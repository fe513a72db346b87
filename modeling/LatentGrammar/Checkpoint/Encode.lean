import LatentGrammar.Checkpoint.Basic
import LatentGrammar.Json.Basic
import LatentGrammar.Training.Config
import LatentGrammar.Word

namespace LatentGrammar

variable {α β : Type}

abbrev NumberFormat (α β : Type) := α → Json β

/-- Numbers as they are; what is not finite cannot be written. -/
def NumberFormat.exact [Scalar α] : NumberFormat α α := fun x =>
  if Scalar.isFinite x then .fraction x else .null

def numbers (number : NumberFormat α β) (values : List α) : Json β :=
  .array (values.map number)

/-- A substate without a parent is written as the largest word. -/
def Ancestry.parentCode (parent : Option Nat) : Nat := parent.getD Word.greatest

def Ancestry.encode (ancestry : Ancestry) : Json β :=
  .object [("parents", .ofNats (ancestry.parents.map Ancestry.parentCode))]

def Smoothing.encode (number : NumberFormat α β) : Smoothing α → Json β
  | .none => .string "None"
  | .acrossSiblings strength =>
    .object [("AcrossParentBits", .object [("strength", number strength)])]

def Production.encode : Production → Json β
  | unary parent child =>
    .object [("Unary", .object [("parent", .ofNat parent), ("child", .ofNat child)])]
  | binary parent left right =>
    .object [("Binary",
      .object [("parent", .ofNat parent), ("left", .ofNat left), ("right", .ofNat right)])]

def RuleBlock.encode (number : NumberFormat α β) (scores : RuleBlock α) : Json β :=
  .object [("dims", .ofNats [scores.parents, scores.lefts, scores.rights]),
    ("data", numbers number scores.cells.toList)]

def Grammar.encode (number : NumberFormat α β) (grammar : Grammar α) : Json β :=
  .object [("substates", .ofNats grammar.substates), ("root", .ofNat grammar.root),
    ("rules", .array (grammar.rules.entries.map fun (key, scores) =>
      .array [key.encode, scores.encode number])),
    ("smoother", grammar.smoothing.encode number), ("threshold", number grammar.threshold),
    ("lineage", .array (grammar.ancestry.map Ancestry.encode))]

def Estimator.encode : Estimator → Json β
  | sophisticated => .string "Sophisticated"
  | simple => .string "Simple"

def LexiconSettings.encode (number : NumberFormat α β) (settings : LexiconSettings α) : Json β :=
  .object [("kind", settings.kind.encode), ("word_smoothing", number settings.wordSmoothing),
    ("signature_smoothing", number settings.signatureSmoothing),
    ("smoothing_cutoff", number settings.smoothingCutoff), ("threshold", number settings.threshold)]

def EmissionTables.encode (number : NumberFormat α β) (tables : EmissionTables α) : Json β :=
  let vectors (vectors : List (List α)) : Json β := .array (vectors.map (numbers number))
  let named (tables : List (NameTable (List α))) : Json β :=
    .array (tables.map fun table =>
      .object (table.map fun (name, counts) => (name, numbers number counts)))
  let totals (table : NameTable α) : Json β :=
    .object (table.map fun (name, total) => (name, number total))
  .object [("tag_counts", vectors tables.tagCounts), ("word_counts", named tables.wordCounts),
    ("word_totals", totals tables.wordTotals), ("total_tokens", number tables.totalTokens),
    ("unseen_tag_counts", vectors tables.unseenTagCounts),
    ("unseen_signature_counts", named tables.unseenSignatureCounts),
    ("unseen_signature_totals", totals tables.unseenSignatureTotals),
    ("unseen_total", number tables.unseenTotal)]

def Lexicon.encode (number : NumberFormat α β) (lexicon : Lexicon α) : Json β :=
  .object [("substates", .ofNats lexicon.substates), ("root", .ofNat lexicon.root),
    ("params", lexicon.settings.encode number), ("stats", lexicon.tables.encode number),
    ("smoother", lexicon.smoothing.encode number),
    ("lineage", .array (lexicon.ancestry.map Ancestry.encode))]

def Vocabulary.encode (vocabulary : Vocabulary) : Json β :=
  .object [("labels", .array (vocabulary.labels.map .string)),
    ("root_label", .string vocabulary.rootLabel)]

def Treebank.Direction.encode : Treebank.Direction → Json β
  | left => .string "Left"
  | right => .string "Right"

def Checkpoint.encode (number : NumberFormat α β) (checkpoint : Checkpoint α) : Json β :=
  .object [("lexicon", checkpoint.model.lexicon.encode number),
    ("grammar", checkpoint.model.grammar.encode number),
    ("vocabulary", checkpoint.vocabulary.encode), ("substates", .ofNats checkpoint.substates),
    ("vertical", .ofNat checkpoint.vertical), ("horizontal", .ofNat checkpoint.horizontal),
    ("binarization", checkpoint.binarization.encode)]

namespace Training

def SmoothingPolicy.encode : SmoothingPolicy → Json β
  | acrossSiblings => .string "AcrossParentBits"
  | none => .string "None"

def encodePath : Option String → Json β
  | none => .null
  | some name => .string name

def Config.encode (number : NumberFormat α β) (config : Config α) : Json β :=
  .object [("output", encodePath config.output), ("train_path", encodePath config.trainPath),
    ("validation_path", encodePath config.validationPath), ("resume", encodePath config.resume),
    ("rounds", .ofNat config.rounds), ("merge_percentage", number config.mergePercentage),
    ("separate_merge_threshold", .bool config.separateMergeThreshold),
    ("split_max_iterations", .ofNat config.splitMaxIterations),
    ("split_min_iterations", .ofNat config.splitMinIterations),
    ("merge_max_iterations", .ofNat config.mergeMaxIterations),
    ("merge_min_iterations", .ofNat config.mergeMinIterations),
    ("smooth_max_iterations", .ofNat config.smoothMaxIterations),
    ("patience", .ofNat config.patience), ("smoothing", config.smoothing.encode),
    ("substates", .ofNat config.substates), ("vertical_markovization", .ofNat config.vertical),
    ("horizontal_markovization", .ofNat config.horizontal),
    ("binarization", config.binarization.encode), ("seed", .ofNat config.seed),
    ("randomization", number config.randomization), ("filter", number config.filter),
    ("rare_word_threshold", .ofNat config.rareWordThreshold),
    ("really_rare_threshold", .ofNat config.reallyRareThreshold),
    ("word_smoothing", number config.wordSmoothing),
    ("signature_smoothing", number config.signatureSmoothing),
    ("lexicon", config.lexicon.encode),
    ("max_sentence_length", .ofNat config.maxSentenceLength),
    ("train_fraction", number config.trainFraction), ("train_on_dev", .bool config.trainOnDev),
    ("lowercase", .bool config.lowercase),
    ("keep_function_labels", .bool config.keepFunctionLabels),
    ("baseline", .bool config.baseline), ("no_split", .bool config.noSplit),
    ("allow_more_substates_than_counts", .bool config.allowMoreSubstatesThanCounts)]

end Training

end LatentGrammar
