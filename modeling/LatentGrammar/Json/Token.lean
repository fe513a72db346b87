import LatentGrammar.Decimal.Shortest
import LatentGrammar.Json.Basic
import LatentGrammar.Word

/-! Splitting the text of a document into tokens. The scanner reads one character at a time and is
always in one of the places below; a number or a name ends where a character can no longer belong to
it, and that character is then read afresh. -/

namespace LatentGrammar.Json

inductive Token where
  | openList
  | closeList
  | openObject
  | closeObject
  | colon
  | comma
  | null
  | bool (value : Bool)
  | whole (value : Int)
  | fraction (value : Float)
  /-- A string; it has no text if it contains half of a surrogate pair. -/
  | string (text : Option String)
  deriving Repr

/-- A part of a string: a character, or a surrogate that was written as an escape. -/
inductive Piece where
  | char (c : Char)
  | surrogate (code : Nat)
  deriving Repr

/-- What the scanner is in the middle of; what was read so far stands in reverse. -/
inductive Scan where
  | between
  | name (letters : List Char)
  | number (characters : List Char)
  | text (pieces : List Piece)
  | escape (pieces : List Piece)
  /-- After `\u`, or inside its four digits. -/
  | code (pieces : List Piece) (value digits : Nat)
  deriving Repr

def isNumeric (c : Char) : Bool :=
  c.isDigit || c == '-' || c == '+' || c == '.' || c == 'e' || c == 'E'

def digitValue (digits : List Char) : Nat :=
  digits.foldl (fun n c => 10 * n + (c.toNat - 48)) 0

def exponent? : List Char → Option Int
  | '-' :: digits => if digits.isEmpty || !digits.all Char.isDigit then none
      else some (-(digitValue digits : Int))
  | '+' :: digits => if digits.isEmpty || !digits.all Char.isDigit then none
      else some (digitValue digits)
  | digits => if digits.isEmpty || !digits.all Char.isDigit then none
      else some (digitValue digits)

/-- A number without a point or an exponent is whole if it fits into 64 bits, signed or unsigned;
every other number is a fraction, and so is the negative zero. -/
def number? (characters : List Char) : Option Token := do
  let (negative, rest) := match characters with
    | '-' :: rest => (true, rest)
    | rest => (false, rest)
  let digits := rest.takeWhile Char.isDigit
  let rest := rest.dropWhile Char.isDigit
  if digits.isEmpty || (digits.head? == some '0' && digits.length != 1) then none
  let n := digitValue digits
  match rest with
  | [] =>
    if !negative && n < Word.limit then some (.whole n)
    else if negative && n != 0 && n ≤ Word.signBit then some (.whole (-(n : Int)))
    else some (.fraction (Decimal.toFloat negative n 0))
  | '.' :: rest =>
    let places := rest.takeWhile Char.isDigit
    let rest := rest.dropWhile Char.isDigit
    if places.isEmpty then none
    let step ← match rest with
      | [] => some (0 : Int)
      | e :: rest => if e == 'e' || e == 'E' then exponent? rest else none
    some (.fraction
      (Decimal.toFloat negative (digitValue (digits ++ places)) (step - places.length)))
  | e :: rest =>
    if e == 'e' || e == 'E' then
      let step ← exponent? rest
      some (.fraction (Decimal.toFloat negative n step))
    else none

def name? (letters : List Char) : Option Token :=
  if letters == ['n', 'u', 'l', 'l'] then some .null
  else if letters == ['t', 'r', 'u', 'e'] then some (.bool true)
  else if letters == ['f', 'a', 'l', 's', 'e'] then some (.bool false)
  else none

def start? (tokens : List Token) (c : Char) : Option (List Token × Scan) :=
  match c with
  | '[' => some (.openList :: tokens, .between)
  | ']' => some (.closeList :: tokens, .between)
  | '\x7b' => some (.openObject :: tokens, .between)
  | '\x7d' => some (.closeObject :: tokens, .between)
  | ':' => some (.colon :: tokens, .between)
  | ',' => some (.comma :: tokens, .between)
  | '"' => some (tokens, .text [])
  | c =>
    if c == ' ' || c == '\n' || c == '\t' || c == '\r' then some (tokens, .between)
    else if c == '-' || c.isDigit then some (tokens, .number [c])
    else if c.isAlpha then some (tokens, .name [c])
    else none

def hexDigit? (c : Char) : Option Nat :=
  if c.isDigit then some (c.toNat - 48)
  else if 'a' ≤ c && c ≤ 'f' then some (c.toNat - 87)
  else if 'A' ≤ c && c ≤ 'F' then some (c.toNat - 55)
  else none

def Piece.ofCode (code : Nat) : Piece :=
  if 0xD800 ≤ code && code < 0xE000 then .surrogate code else .char (Char.ofNat code)

def surrogatePair? (high low : Nat) : Option Char :=
  if high < 0xDC00 && 0xDC00 ≤ low then
    some (Char.ofNat (0x10000 + (high - 0xD800) * 0x400 + (low - 0xDC00)))
  else none

/-- Puts the pieces of a string, the last one first, in front of the characters behind them. -/
def joinPieces? (after : List Char) : List Piece → Option (List Char)
  | [] => some after
  | .char c :: rest => joinPieces? (c :: after) rest
  | .surrogate low :: .surrogate high :: rest => do
    joinPieces? ((← surrogatePair? high low) :: after) rest
  | .surrogate _ :: _ => none

def escaped? (c : Char) : Option Char :=
  match c with
  | '"' => some '"'
  | '\\' => some '\\'
  | '/' => some '/'
  | 'b' => some '\x08'
  | 'f' => some '\x0c'
  | 'n' => some '\n'
  | 'r' => some '\r'
  | 't' => some '\t'
  | _ => none

def scan? (tokens : List Token) (place : Scan) (c : Char) : Option (List Token × Scan) :=
  match place with
  | .between => start? tokens c
  | .name letters =>
    if c.isAlpha then some (tokens, .name (c :: letters))
    else do start? ((← name? letters.reverse) :: tokens) c
  | .number characters =>
    if isNumeric c then some (tokens, .number (c :: characters))
    else do start? ((← number? characters.reverse) :: tokens) c
  | .text pieces =>
    if c == '"' then
      some (.string ((joinPieces? [] pieces).map String.ofList) :: tokens, .between)
    else if c == '\\' then some (tokens, .escape pieces)
    else if c.toNat < 0x20 then none
    else some (tokens, .text (.char c :: pieces))
  | .escape pieces =>
    if c == 'u' then some (tokens, .code pieces 0 0)
    else do some (tokens, .text (.char (← escaped? c) :: pieces))
  | .code pieces value digits => do
    let value := 16 * value + (← hexDigit? c)
    if digits == 3 then some (tokens, .text (.ofCode value :: pieces))
    else some (tokens, .code pieces value (digits + 1))

def endScan? (tokens : List Token) : Scan → Option (List Token)
  | .between => some tokens
  | .name letters => do some ((← name? letters.reverse) :: tokens)
  | .number characters => do some ((← number? characters.reverse) :: tokens)
  | _ => none

def scanAll? (tokens : List Token) (place : Scan) : List Char → Option (List Token)
  | [] => endScan? tokens place
  | c :: rest =>
    match scan? tokens place c with
    | none => none
    | some (tokens, place) => scanAll? tokens place rest

def tokens? (text : String) : Option (List Token) :=
  (scanAll? [] .between text.toList).map List.reverse

end LatentGrammar.Json
