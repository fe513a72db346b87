import LatentGrammar.CommandLine.Options
import LatentGrammar.Training.Corpus

namespace LatentGrammar

def CommandLine.Refusal.exitCode : CommandLine.Refusal → Nat
  | usage => 2
  | information => 0

/-- A fatal fault has a code of its own. -/
def Training.RunFault.exitCode {α : Type} (fault : Training.RunFault α) : Nat :=
  match fault.cause with
  | .model fault => if fault.isFatal then 101 else 1
  | _ => 1

namespace CommandLine

def printed (lines : List String) : String := String.join (lines.map (· ++ "\n"))

def trimReturn (line : String) : String :=
  match line.toList.reverse with
  | '\r' :: rest => String.ofList rest.reverse
  | _ => line

/-- The lines of a text that has been printed. What is printed as one line may hold line ends of its
own. -/
def lines (text : String) : List String := (text.splitOn "\n").dropLast.map trimReturn

end CommandLine

end LatentGrammar
