import LatentGrammar.Unicode.Letters
import LatentGrammar.Unicode.Lowercase

namespace LatentGrammar

namespace Signature

def suffixes : List String := ["ing", "ion", "est", "ity", "ed", "er", "ly", "al", "y", "s"]

/-- Capitals only, a capital at the start of the sentence or elsewhere, or a capital inside. -/
def capitalization (characters : List Char) (position : Nat) : String :=
  let letters := characters.filter Unicode.isAlphabetic
  let initial := (characters.head?).any Unicode.isUppercase
  if !letters.isEmpty && letters.all Unicode.isUppercase then "-CAPS"
  else if initial && position == 0 then "-INITC"
  else if initial then "-CAP"
  else if characters.any Unicode.isUppercase then "-LC"
  else ""

def suffix (word : String) : String :=
  let small := (Unicode.lowercase word).toList
  if small.length < 3 then ""
  else
    match suffixes.find? fun ending => ending.toList.isSuffixOf small with
    | some ending => "-" ++ ending
    | none => ""

end Signature

/-- The signature of a word at a position of a sentence, such as `UNK-INITC-ed`. -/
def signature (word : String) (position : Nat) : String :=
  let characters := word.toList
  "UNK" ++ Signature.capitalization characters position
    ++ (if characters.any Char.isDigit then "-NUM" else "")
    ++ (if characters.contains '-' then "-DASH" else "")
    ++ Signature.suffix word

end LatentGrammar
