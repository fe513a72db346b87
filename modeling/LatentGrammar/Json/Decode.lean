import LatentGrammar.Json.Basic
import LatentGrammar.Word

/-! Reading typed values from documents. A record is written as an object with one field for each of
its members, in any order and among others, or as the list of its members in order. The payload of
an alternative is a record too, but where documents are read strictly it has to be an object. -/

namespace LatentGrammar.Json

variable {α β : Type}

/-- Counts are words. -/
def nat? : Json α → Option Nat
  | .whole value => if 0 ≤ value && value < Word.limit then some value.toNat else none
  | _ => none

def bool? : Json α → Option Bool
  | .bool value => some value
  | _ => none

def text? : Json α → Option String
  | .string text => some text
  | _ => none

def list? (item? : Json α → Option β) : Json α → Option (List β)
  | .array items => items.mapM item?
  | _ => none

def optional? (value? : Json α → Option β) : Json α → Option (Option β)
  | .null => some none
  | json => (value? json).map some

def pair? {γ : Type} (first? : Json α → Option β) (second? : Json α → Option γ) :
    Json α → Option (β × γ)
  | .array [first, second] => do some (← first? first, ← second? second)
  | _ => none

/-- The members of a record with the given names; a member may be missing but not repeated. -/
def members? (names : List String) : Json α → Option (List (Option (Json α)))
  | .object fields =>
    names.mapM fun name =>
      match fields.filter (·.1 == name) with
      | [] => some none
      | [(_, value)] => some (some value)
      | _ => none
  | .array items => if items.length == names.length then some (items.map some) else none
  | _ => none

def record? (names : List String) (json : Json α) : Option (List (Json α)) := do
  (← members? names json).mapM id

/-- An alternative is written by its name, or as an object whose only field holds its payload. -/
def alternative? : Json α → Option (String × Option (Json α))
  | .string name => some (name, none)
  | .object [(name, payload)] => some (name, some payload)
  | _ => none

inductive PayloadForm where
  | named
  | namedOrListed
  deriving Repr, DecidableEq

def payload? : PayloadForm → List String → Json α → Option (List (Json α))
  | .named, _, .array _ => none
  | _, names, json => record? names json

def constant? (json : Json α) : Option String := do
  match ← alternative? json with
  | (name, none) => some name
  | (name, some .null) => some name
  | _ => none

/-- The last value of each name wins. -/
def entries? (value? : Json α → Option β) : Json α → Option (List (String × β))
  | .object fields => fields.mapM fun (name, value) => do some (name, ← value? value)
  | _ => none

end LatentGrammar.Json
