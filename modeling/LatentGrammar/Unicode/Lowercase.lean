import LatentGrammar.Unicode.CaseMap

namespace LatentGrammar.Unicode

def isCased (c : Char) : Bool := Span.covers casedSpans c.toNat

def isCaseIgnorable (c : Char) : Bool := Span.covers caseIgnorableSpans c.toNat

/-- The lower-case form of a character by itself; only the dotted capital I has two characters. -/
def lowerChar (c : Char) : List Char :=
  if c == 'İ' then ['i', '\u0307']
  else
    match Span.lookup? (fun entry : CaseSpan => entry.capitals.first) caseSpans c.toNat with
    | some entry =>
      if entry.capitals.contains c.toNat then
        [Char.ofNat (entry.small + (c.toNat - entry.capitals.first))]
      else [c]
    | none => [c]

/-- Whether the first character that is not case-ignorable is a letter with case. -/
def meetsCased (text : List Char) : Bool :=
  ((text.dropWhile isCaseIgnorable).head?).any isCased

/-- Lower-cases `text`, which follows the characters `before`, the nearest first. -/
def lowerAfter (before : List Char) : List Char → List Char
  | [] => []
  | c :: rest =>
    let small :=
      if c == 'Σ' then
        if meetsCased before && !meetsCased rest then ['ς'] else ['σ']
      else lowerChar c
    small ++ lowerAfter (c :: before) rest

def lowercase (text : String) : String :=
  String.ofList (lowerAfter [] text.toList)

end LatentGrammar.Unicode
