import LatentGrammar.CommandLine.Inspect
import LatentGrammar.CommandLine.Train
import LatentGrammar.Json.Layout
import LatentGrammar.Storage

/-! The program: `train` learns a grammar from a treebank, `inspect` summarizes a trained one. The
files that a command names are read before it is carried out, and models are written when it is
over. -/

namespace LatentGrammar.CommandLine

open Training

/-- Those of the named files that can be read as text, as the sources of a run. -/
def readFiles (names : List String) : IO (Sources Float) := do
  let files ← names.filterMapM fun (name : String) => do
    match ← (IO.FS.readBinFile name).toBaseIO with
    | .ok bytes => return (String.fromUTF8? bytes).map fun text => (name, Contents.text text)
    | .error _ => return none
  return .ofFiles (files.lookup ·)

def save (entry : String × Checkpoint Float) : IO Bool := do
  match ← (IO.FS.writeFile entry.1 (entry.2.encode .exact).render).toBaseIO with
  | .ok _ => return true
  | .error _ => return false

def refuse (usage : String) (refusal : Refusal) : IO UInt32 := do
  match refusal with
  | .usage => IO.eprintln usage
  | .information => IO.println usage
  return refusal.exitCode.toUInt32

def fail (fault : RunFault Float) : IO UInt32 := do
  IO.eprintln ("failed: " ++ fault.message Decimal.plain)
  return fault.exitCode.toUInt32

def runTrain (arguments : List String) : IO UInt32 := do
  match Train.config arguments with
  | .error refusal => refuse Train.usage refusal
  | .ok config =>
    let names := [config.trainPath, config.validationPath, config.resume].filterMap id
    let attempt := Train.run config (← readFiles names)
    let saved ← attempt.saves.mapM save
    let output := do lift (Train.output (← attempt.result) (saved.getLastD false))
    match output with
    | .error fault => fail fault
    | .ok text =>
      IO.print text
      return 0

def runInspect (arguments : List String) : IO UInt32 := do
  match Inspect.request arguments with
  | .error refusal => refuse Inspect.usage refusal
  | .ok request =>
    match request.run (← readFiles (request.checkpoint :: request.treebank.toList)) with
    | .error fault => fail fault
    | .ok inspection =>
      if request.json then IO.println (Inspect.encode .exact inspection).layout
      else IO.print (Inspect.output inspection)
      return 0

end LatentGrammar.CommandLine

open LatentGrammar.CommandLine in
def main (arguments : List String) : IO UInt32 := do
  match arguments with
  | "train" :: rest => runTrain rest
  | "inspect" :: rest => runInspect rest
  | _ => refuse (Train.usage ++ "\n" ++ Inspect.usage) .usage
