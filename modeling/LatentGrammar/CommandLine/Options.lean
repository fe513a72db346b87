import LatentGrammar.Decimal.Shortest
import LatentGrammar.Word

namespace LatentGrammar.CommandLine

structure Declaration where
  name : String
  short : Option Char
  /-- Tells which values an option takes; a flag takes none. -/
  accepts : Option (String → Bool)

structure Grammar where
  declarations : List Declaration
  positionals : Nat
  hasVersion : Bool

inductive Refusal where
  | usage
  | information
  deriving Repr, DecidableEq

structure Parsed where
  values : List (String × String)
  positionals : List String
  deriving Repr

namespace Parsed

def value? (parsed : Parsed) (name : String) : Option String := parsed.values.lookup name

def flag (parsed : Parsed) (name : String) : Bool := (parsed.value? name).isSome

def add (parsed : Parsed) (declaration : Declaration) (value : String) :
    Except Refusal Parsed :=
  if parsed.flag declaration.name then .error .usage
  else if declaration.accepts.all (· value) then
    .ok { parsed with values := (declaration.name, value) :: parsed.values }
  else .error .usage

def addPositional (grammar : CommandLine.Grammar) (parsed : Parsed) (value : String) :
    Except Refusal Parsed :=
  if parsed.positionals.length < grammar.positionals && !value.isEmpty then
    .ok { parsed with positionals := parsed.positionals ++ [value] }
  else .error .usage

end Parsed

inductive Step where
  | done (parsed : Parsed)
  /-- The next argument is the value of an option. -/
  | wait (parsed : Parsed) (declaration : Declaration)

def readLong (grammar : Grammar) (parsed : Parsed) (text : List Char) : Except Refusal Step := do
  let name := String.ofList (text.takeWhile (· != '='))
  let value : Option String :=
    match text.dropWhile (· != '=') with
    | [] => none
    | _ :: value => some (String.ofList value)
  if value.isNone && (name == "help" || (grammar.hasVersion && name == "version")) then
    throw .information
  let some declaration := grammar.declarations.find? (·.name == name) | throw .usage
  match declaration.accepts, value with
  | none, none => return .done (← parsed.add declaration "")
  | none, some _ => throw .usage
  | some _, some value => return .done (← parsed.add declaration value)
  | some _, none => return .wait parsed declaration

/-- Short flags behind one dash, the last of which may be an option. -/
def readShort (grammar : Grammar) (parsed : Parsed) : List Char → Except Refusal Step
  | [] => .ok (.done parsed)
  | c :: rest => do
    if c == 'h' || (grammar.hasVersion && c == 'V') then throw .information
    let some declaration := grammar.declarations.find? (·.short == some c) | throw .usage
    match declaration.accepts, rest with
    | none, rest => readShort grammar (← parsed.add declaration "") rest
    | some _, [] => return .wait parsed declaration
    | some _, '=' :: value => return .done (← parsed.add declaration (String.ofList value))
    | some _, value => return .done (← parsed.add declaration (String.ofList value))

/-- Reads arguments from left to right; what is wrong or asked for first counts. -/
def read (grammar : Grammar) : List String → Step → Except Refusal Parsed
  | [], .done parsed => .ok parsed
  | [], .wait .. => .error .usage
  | argument :: rest, .wait parsed declaration =>
    match argument.toList with
    | '-' :: _ :: _ => .error .usage
    | _ => do read grammar rest (.done (← parsed.add declaration argument))
  | argument :: rest, .done parsed =>
    match argument.toList with
    | ['-', '-'] => rest.foldlM (Parsed.addPositional grammar) parsed
    | '-' :: '-' :: text => do read grammar rest (← readLong grammar parsed text)
    | '-' :: c :: text => do read grammar rest (← readShort grammar parsed (c :: text))
    | _ => do read grammar rest (.done (← parsed.addPositional grammar argument))

def Grammar.parse (grammar : Grammar) (arguments : List String) : Except Refusal Parsed :=
  read grammar arguments (.done ⟨[], []⟩)

def word? (text : String) : Option Nat := do
  let digits := match text.toList with
    | '+' :: digits => digits
    | digits => digits
  if digits.isEmpty || !digits.all Char.isDigit then none
  let n := digits.foldl (fun n c => 10 * n + (c.toNat - 48)) 0
  if n < Word.limit then some n else none

namespace Declaration

def ofFlag (name : String) (short : Option Char) : Declaration := ⟨name, short, none⟩

def ofPath (name : String) (short : Option Char) : Declaration :=
  ⟨name, short, some fun value => !value.isEmpty⟩

def ofWord (name : String) : Declaration := ⟨name, none, some fun value => (word? value).isSome⟩

def ofNumber (name : String) : Declaration :=
  ⟨name, none, some fun value => (Decimal.read? value).isSome⟩

def ofChoice (name : String) (choices : List String) : Declaration :=
  ⟨name, none, some choices.contains⟩

end Declaration

def padRight (width : Nat) (text : String) : String :=
  text ++ String.ofList (List.replicate (width - text.length) ' ')

def padLeft (width : Nat) (text : String) : String :=
  String.ofList (List.replicate (width - text.length) ' ') ++ text

end LatentGrammar.CommandLine
