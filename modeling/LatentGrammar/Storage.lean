import LatentGrammar.Checkpoint.Decode
import LatentGrammar.Json.Printer
import LatentGrammar.Json.Reader
import LatentGrammar.Training.Run

/-! Named files in one directory. Checkpoints are kept as documents; their text is only made when a
file is read as text. There are no other directories than those on the way to this one. -/

namespace LatentGrammar

open Training

inductive Contents where
  | text (text : String)
  | document (json : Json Float)

namespace Contents

def toText : Contents → String
  | .text written => written
  | .document json => json.render

def toCheckpoint (contents : Contents) : Except FileFault (Checkpoint Float) :=
  let json := match contents with
    | .text written => Json.read? written
    | .document json => some json
  match json.bind Checkpoint.decode? with
  | some checkpoint => .ok checkpoint
  | none => .error .undecodable

def ofCheckpoint (checkpoint : Checkpoint Float) : Contents :=
  .document (checkpoint.encode .exact)

end Contents

def Training.Sources.ofFiles (find? : String → Option Contents) : Sources Float where
  text path := ((find? path).map Contents.toText).elim (.error .unreadable) .ok
  checkpoint path := ((find? path).map Contents.toCheckpoint).getD (.error .unreadable)

def nameLimit : Nat := 255

def pathLimit : Nat := 4095

/-- What a path leads to. Places in the hierarchy of directories are lists of names from the top. -/
inductive Target where
  | directory
  /-- The place of a file, whether or not there is one. -/
  | file (place : List String)
  deriving Repr, DecidableEq

structure Storage where
  home : List String
  current : List String
  files : List (List String × Contents)

namespace Storage

def isDirectory (storage : Storage) (place : List String) : Bool := place.isPrefixOf storage.home

/-- What some names lead to from a directory. Only the last name may be another than that of a
directory. -/
def follow (storage : Storage) (place : List String) : List String → Option Target
  | [] => some .directory
  | name :: rest =>
    if name == "" || name == "." then follow storage place rest
    else if name == ".." then follow storage place.dropLast rest
    else if nameLimit < name.utf8ByteSize then none
    else
      let next := place ++ [name]
      if storage.isDirectory next then follow storage next rest
      else if rest.isEmpty then some (.file next)
      else none

def pathIn (place : List String) (name : String) : String :=
  String.join (place.map ("/" ++ ·)) ++ "/" ++ name

def target? (storage : Storage) (path : String) : Option Target :=
  let full := if path.startsWith "/" then path else pathIn storage.current path
  if path.isEmpty || path.contains '\x00' || pathLimit < full.utf8ByteSize then none
  else storage.follow [] (full.splitOn "/")

def locate (storage : Storage) (path : String) : Option (List String) :=
  match storage.target? path with
  | some (.file place) => some place
  | _ => none

def find? (storage : Storage) (path : String) : Option Contents :=
  (storage.locate path).bind (storage.files.lookup ·)

/-- The files as the sources of a run. A directory can be opened like a file but holds no
checkpoint. -/
def sources (storage : Storage) : Sources Float :=
  let files : Sources Float := .ofFiles storage.find?
  { files with
    checkpoint := fun path =>
      match storage.target? path with
      | some .directory => .error .undecodable
      | _ => files.checkpoint path }

def isWritable (storage : Storage) (path : String) : Bool := (storage.locate path).isSome

def write (storage : Storage) (path : String) (contents : Contents) : Storage :=
  match storage.locate path with
  | some place =>
    { storage with files := (place, contents) :: storage.files.filter (·.1 != place) }
  | none => storage

def ofFiles (home : List String) (files : List (String × Contents)) : Storage :=
  files.foldl (fun storage (name, contents) => storage.write name contents) ⟨home, home, []⟩

def saveAll (storage : Storage) (attempt : Attempt Float) : Storage :=
  attempt.saves.foldl (fun storage (path, checkpoint) =>
    storage.write path (.ofCheckpoint checkpoint)) storage

def names (storage : Storage) : List String :=
  let names := storage.files.filterMap fun (place, _) =>
    if place.dropLast == storage.home then place.getLast? else none
  names.mergeSort fun a b => !(b < a)

/-- The path from the top to a name in the directory; a path from the top stays what it is. -/
def pathTo (storage : Storage) (name : String) : String :=
  if name.startsWith "/" then name else pathIn storage.home name

def fromHome (storage : Storage) (text : String) : String :=
  text.replace (pathIn storage.home "") ""

end Storage

end LatentGrammar
