import LatentGrammar.Json.Token

namespace LatentGrammar.Json

/-- A list or an object that is still open; its members so far stand in reverse. Names that are no
text are told apart from others, but not from each other. -/
inductive Open where
  | list (items : List (Json Float))
  | object (fields : List (Option String × Json Float)) (name : Option String)

inductive Expect where
  /-- A value; `first` allows the list just opened to be empty. -/
  | value (first : Bool)
  /-- The name of a field; `first` allows the object just opened to be empty. -/
  | name (first : Bool)
  | colon (name : Option String)
  | next

structure Reader where
  expect : Expect
  stack : List Open
  done : Option (Json Float)

namespace Reader

def give (reader : Reader) (value : Json Float) : Reader :=
  match reader.stack with
  | [] => { reader with expect := .next, done := some value }
  | .list items :: stack =>
    { reader with expect := .next, stack := .list (value :: items) :: stack }
  | .object fields name :: stack =>
    { reader with expect := .next, stack := .object ((name, value) :: fields) none :: stack }

def scalar? : Token → Option (Json Float)
  | .null => some .null
  | .bool value => some (.bool value)
  | .whole value => some (.whole value)
  | .fraction value => some (.fraction value)
  | .string text => some ((text.map .string).getD .illFormed)
  | _ => none

def object (fields : List (Option String × Json Float)) : Json Float :=
  match fields.reverse.mapM fun (name, value) => do some (← name, value) with
  | some fields => .object fields
  | none => .illFormed

def close? (reader : Reader) (list : Bool) : Option Reader :=
  match reader.stack with
  | .list items :: stack =>
    if list then some ({ reader with stack }.give (.array items.reverse)) else none
  | .object fields _ :: stack =>
    if list then none else some ({ reader with stack }.give (object fields))
  | [] => none

def step? (reader : Reader) (token : Token) : Option Reader :=
  match reader.expect with
  | .value first =>
    match token with
    | .openList => some { reader with expect := .value true, stack := .list [] :: reader.stack }
    | .openObject =>
      some { reader with expect := .name true, stack := .object [] none :: reader.stack }
    | .closeList => if first then reader.close? true else none
    | token => (scalar? token).map reader.give
  | .name first =>
    match token with
    | .string name => some { reader with expect := .colon name }
    | .closeObject => if first then reader.close? false else none
    | _ => none
  | .colon name =>
    match token, reader.stack with
    | .colon, .object fields _ :: stack =>
      some { reader with expect := .value false, stack := .object fields name :: stack }
    | _, _ => none
  | .next =>
    match token, reader.stack with
    | .comma, .list _ :: _ => some { reader with expect := .value false }
    | .comma, .object .. :: _ => some { reader with expect := .name false }
    | .closeList, _ => reader.close? true
    | .closeObject, _ => reader.close? false
    | _, _ => none

end Reader

def read? (text : String) : Option (Json Float) := do
  let start : Reader := { expect := .value false, stack := [], done := none }
  let reader ← (← tokens? text).foldlM Reader.step? start
  if reader.stack.isEmpty then reader.done else none

end LatentGrammar.Json
