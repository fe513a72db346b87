import LatentGrammar.Json.Printer

namespace LatentGrammar.Json

/-- A new line, indented by two blanks for each list or object around it. -/
def newline (depth : Nat) : String := String.ofList ('\n' :: List.replicate (2 * depth) ' ')

mutual

def layoutAt (depth : Nat) : Json Float → String
  | .array (item :: rest) =>
    "[" ++ layoutItems true (depth + 1) (item :: rest) ++ newline depth ++ "]"
  | .object (field :: rest) =>
    "\x7b" ++ layoutFields true (depth + 1) (field :: rest) ++ newline depth ++ "\x7d"
  | json => json.render

def layoutItems (first : Bool) (depth : Nat) : List (Json Float) → String
  | [] => ""
  | item :: rest =>
    (if first then "" else ",") ++ newline depth ++ layoutAt depth item
      ++ layoutItems false depth rest

def layoutFields (first : Bool) (depth : Nat) : List (String × Json Float) → String
  | [] => ""
  | (name, value) :: rest =>
    (if first then "" else ",") ++ newline depth ++ quote name ++ ": " ++ layoutAt depth value
      ++ layoutFields false depth rest

end

def layout (json : Json Float) : String := layoutAt 0 json

end LatentGrammar.Json
