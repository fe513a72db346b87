import LatentGrammar.Fault
import LatentGrammar.Tree
import LatentGrammar.Unicode.Blank

namespace LatentGrammar.Treebank

inductive Token where
  | opening
  | closing
  | word (text : String)
  deriving Repr, DecidableEq

namespace Token

def flush (pending : List Char) (tokens : List Token) : List Token :=
  if pending.isEmpty then tokens else word (String.ofList pending.reverse) :: tokens

def scanAfter (pending : List Char) : List Char → List Token
  | [] => flush pending []
  | c :: rest =>
    if c == '(' then flush pending (opening :: scanAfter [] rest)
    else if c == ')' then flush pending (closing :: scanAfter [] rest)
    else if Unicode.isBlank c then flush pending (scanAfter [] rest)
    else scanAfter (c :: pending) rest

/-- Parentheses stand for themselves, blanks separate, and everything between them is a word. -/
def scan (text : String) : List Token := scanAfter [] text.toList

end Token

/-- Cuts a label at its first index mark, or function mark unless those are kept. A label that
starts with a dash is left alone. -/
def plainLabel (keepFunctions : Bool) (label : String) : String :=
  match label.toList with
  | '-' :: _ => label
  | characters =>
    String.ofList (characters.takeWhile fun c => c != '=' && (keepFunctions || c != '-'))

structure Frame where
  label : String
  children : List Tree
  deriving Repr

def Frame.push (frame : Frame) (child : Tree) : Frame :=
  { frame with children := child :: frame.children }

def Frame.close (frame : Frame) : Tree := .node frame.label frame.children.reverse

/-- Where the reader stands between two tokens. -/
inductive Place where
  | outside
  | opened (above : List Frame)
  | within (frame : Frame) (above : List Frame)
  deriving Repr

def Place.step (keepFunctions : Bool) : Place → Token → Except SyntaxFault (Place × Option Tree)
  | outside, .opening => .ok (opened [], none)
  | outside, _ => .error .expectedOpening
  | opened above, .opening => .ok (opened (⟨"", []⟩ :: above), none)
  | opened _, .closing => .error .emptyConstituent
  | opened above, .word text => .ok (within ⟨plainLabel keepFunctions text, []⟩ above, none)
  | within frame above, .opening => .ok (opened (frame :: above), none)
  | within frame above, .word text => .ok (within (frame.push (.leaf text)) above, none)
  | within frame [], .closing => .ok (outside, some frame.close)
  | within frame (outer :: above), .closing => .ok (within (outer.push frame.close) above, none)

def Place.endFault? : Place → Option SyntaxFault
  | outside => none
  | opened _ => some .unexpectedEnd
  | within .. => some .unbalanced

def readFrom (keepFunctions : Bool) (position : Nat) (place : Place) :
    List Token → Except Fault (List Tree)
  | [] =>
    match place.endFault? with
    | none => .ok []
    | some cause => .error (.treebank position cause)
  | token :: rest =>
    match place.step keepFunctions token with
    | .error cause => .error (.treebank position cause)
    | .ok (place, complete) =>
      match readFrom keepFunctions (position + 1) place rest with
      | .error fault => .error fault
      | .ok trees => .ok (complete.toList ++ trees)

def readNodes (keepFunctions : Bool) (tokens : List Token) : Except Fault (List Tree) :=
  readFrom keepFunctions 0 .outside tokens

/-- Gives a tree the root label: a top label that is empty or already the root label is replaced, a
tree with any other gets a new top. -/
def enroot (root : String) (tree : Tree) : Tree :=
  if tree.label == "" || tree.label == root then .node root tree.children else .node root [tree]

def emptyLabel : String := "-NONE-"

mutual

/-- Removes empty elements, and constituents of which nothing is left. -/
def prune : Tree → Option Tree
  | .node word [] => some (.node word [])
  | .node label (first :: rest) =>
    if label == emptyLabel then none
    else
      match pruneAll (first :: rest) with
      | [] => none
      | kept => some (.node label kept)

def pruneAll : List Tree → List Tree
  | [] => []
  | tree :: rest => (prune tree).toList ++ pruneAll rest

end

def read (root text : String) (keepFunctions : Bool) : Except Fault (List Tree) :=
  (readNodes keepFunctions (Token.scan text)).map fun trees =>
    trees.filterMap fun tree => prune (enroot root tree)

end LatentGrammar.Treebank
