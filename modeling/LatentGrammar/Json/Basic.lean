namespace LatentGrammar

/-- A document. Fields keep their order and may repeat a name. -/
inductive Json (α : Type) where
  | null
  | bool (value : Bool)
  | whole (value : Int)
  | fraction (value : α)
  | string (text : String)
  | array (items : List (Json α))
  | object (fields : List (String × Json α))
  /-- A string with half of a surrogate pair, or an object with a field of such a name. It is well
  written but has no value, so it can only stand where nothing is read. -/
  | illFormed
  deriving Repr, Inhabited

namespace Json

variable {α : Type}

def field? (name : String) : Json α → Option (Json α)
  | .object fields => (fields.reverse.find? (·.1 == name)).map (·.2)
  | _ => none

def ofNat (n : Nat) : Json α := .whole n

def ofNats (ns : List Nat) : Json α := .array (ns.map ofNat)

end Json

end LatentGrammar
