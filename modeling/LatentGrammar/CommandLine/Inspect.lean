import LatentGrammar.Checkpoint.Encode
import LatentGrammar.CommandLine.Exit
import LatentGrammar.Training.Inspection

namespace LatentGrammar.CommandLine.Inspect

open Training

def usage : String := "inspect [--treebank PATH] [--json] CHECKPOINT"

def grammar : CommandLine.Grammar where
  declarations := [.ofPath "treebank" none, .ofFlag "json" none]
  positionals := 1
  hasVersion := false

structure Request where
  checkpoint : String
  treebank : Option String
  /-- Write a document instead of a table. -/
  json : Bool
  deriving Repr, DecidableEq

def request (arguments : List String) : Except Refusal Request := do
  let parsed ← grammar.parse arguments
  let [checkpoint] := parsed.positionals | throw .usage
  return ⟨checkpoint, parsed.value? "treebank", parsed.flag "json"⟩

def Request.run (request : Request) (sources : Sources Float) :
    Except (RunFault Float) (Inspection Float) :=
  Inspection.ofFile sources request.checkpoint request.treebank

def categoryLine (category : CategoryReport) : String :=
  "  " ++ padLeft 4 (toString category.id) ++ "  " ++ padRight 24 category.label ++ " "
    ++ padLeft 3 (toString category.substates)

def treebankLine (summary : TreebankReport Float) : String :=
  "  " ++ summary.path ++ ": " ++ toString summary.trees ++ " trees, "
    ++ toString summary.outcome.scored ++ " scored, " ++ toString summary.outcome.unparsable
    ++ " unparsable, log-likelihood " ++ Decimal.places 4 true summary.outcome.logLikelihood

def table (inspection : Inspection Float) : List String :=
  let smoothing := (inspection.smoothing.map Decimal.plain).getD "off"
  [inspection.checkpoint,
    "  markovization v=" ++ toString inspection.vertical ++ " h=" ++ toString inspection.horizontal
      ++ ", " ++ toString inspection.rules ++ " rules, smoothing " ++ smoothing]
    ++ inspection.categories.map categoryLine
    ++ ["  total substates: " ++ toString inspection.substateTotal]
    ++ (inspection.treebank.map treebankLine).toList

def output (inspection : Inspection Float) : String := printed (table inspection)

def encode {β : Type} (number : NumberFormat Float β) (inspection : Inspection Float) : Json β :=
  let category (category : CategoryReport) : Json β :=
    .object [("id", .ofNat category.id), ("label", .string category.label),
      ("substates", .ofNat category.substates)]
  let treebank : Json β :=
    match inspection.treebank with
    | none => .null
    | some summary =>
      .object [("path", .string summary.path), ("trees", .ofNat summary.trees),
        ("scored", .ofNat summary.outcome.scored),
        ("unparsable", .ofNat summary.outcome.unparsable),
        ("log_likelihood", number summary.outcome.logLikelihood)]
  .object [("checkpoint", .string inspection.checkpoint),
    ("categories", .array (inspection.categories.map category)),
    ("total_substates", .ofNat inspection.substateTotal), ("rules", .ofNat inspection.rules),
    ("smoothing", (inspection.smoothing.map number).getD .null),
    ("vertical", .ofNat inspection.vertical), ("horizontal", .ofNat inspection.horizontal),
    ("treebank", treebank)]

end LatentGrammar.CommandLine.Inspect
