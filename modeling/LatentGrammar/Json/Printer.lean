import LatentGrammar.Decimal.Shortest
import LatentGrammar.Json.Basic

namespace LatentGrammar.Json

def hexDigits (n : Nat) : List Char :=
  let digits := Nat.toDigits 16 n
  List.replicate (4 - digits.length) '0' ++ digits

/-- Quotation marks, backslashes and controls are escaped, everything else stands for itself. -/
def escape (c : Char) : List Char :=
  match c with
  | '"' => ['\\', '"']
  | '\\' => ['\\', '\\']
  | '\n' => ['\\', 'n']
  | '\r' => ['\\', 'r']
  | '\t' => ['\\', 't']
  | c => if c.toNat < 0x20 then '\\' :: 'u' :: hexDigits c.toNat else [c]

def quote (text : String) : String :=
  String.ofList ('"' :: text.toList.flatMap escape ++ ['"'])

/-- The shortest decimal that reads back, always with a point or an exponent. -/
def fractionText (x : Float) : String :=
  match Decimal.Binary.ofFloat x with
  | .notANumber => "null"
  | .infinite _ => "null"
  | .finite negative mantissa exponent =>
    let text :=
      if mantissa == 0 then "0.0"
      else
        let (digits, step) := Decimal.shortest mantissa exponent
        let size := step + (toString digits).length
        if -5 < size && size ≤ 0 || 0 < size && step < 0 then Decimal.positional digits step
        else if 0 ≤ step && size ≤ 16 then Decimal.positional digits step ++ ".0"
        else toString digits ++ "e" ++ toString step
    if negative then "-" ++ text else text

mutual

def render : Json Float → String
  | .null => "null"
  | .bool value => if value then "true" else "false"
  | .whole value => toString value
  | .fraction value => fractionText value
  | .string text => quote text
  | .array items => "[" ++ renderItems true items ++ "]"
  | .object fields => "\x7b" ++ renderFields true fields ++ "\x7d"
  | .illFormed => "null"

def renderItems (first : Bool) : List (Json Float) → String
  | [] => ""
  | item :: rest => (if first then "" else ",") ++ render item ++ renderItems false rest

def renderFields (first : Bool) : List (String × Json Float) → String
  | [] => ""
  | (name, value) :: rest =>
    (if first then "" else ",") ++ quote name ++ ":" ++ render value ++ renderFields false rest

end

end LatentGrammar.Json
