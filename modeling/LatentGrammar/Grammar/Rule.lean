import LatentGrammar.Capacity
import LatentGrammar.Scalar

namespace LatentGrammar

inductive Production where
  | unary (parent child : Nat)
  | binary (parent left right : Nat)
  deriving Repr, DecidableEq

namespace Production

def parent : Production → Nat
  | unary parent _ => parent
  | binary parent _ _ => parent

def children : Production → List Nat
  | unary _ child => [child]
  | binary _ left right => [left, right]

/-- Unary rules stand before binary ones, and rules of one kind in the order of their categories. -/
def before : Production → Production → Bool
  | unary p c, unary p' c' => p < p' || (p == p' && c < c')
  | unary .., binary .. => true
  | binary .., unary .. => false
  | binary p l r, binary p' l' r' => p < p' || (p == p' && (l < l' || (l == l' && r < r')))

end Production

/-- Scores of a rule, row by row: one row per parent substate, and within it one cell per pair of
child substates. A unary rule has a single right substate. -/
structure RuleBlock (α : Type) where
  parents : Nat
  lefts : Nat
  rights : Nat
  cells : Array α
  deriving Repr

namespace RuleBlock

variable {α : Type}

instance [BEq α] : BEq (RuleBlock α) where
  beq a b := a.parents == b.parents && a.lefts == b.lefts && a.rights == b.rights
    && a.cells == b.cells

def cellCount (parents lefts rights : Nat) : Except Fault Nat := do
  let count ← word ((← word (parents * lefts)) * rights)
  if count < Word.tableLimit then return count else throw .overflow

def zeros [Zero α] (parents lefts rights : Nat) : Except Fault (RuleBlock α) := do
  return ⟨parents, lefts, rights, Array.replicate (← cellCount parents lefts rights) 0⟩

def width (scores : RuleBlock α) : Nat := scores.lefts * scores.rights

def offset (scores : RuleBlock α) (i j k : Nat) : Nat :=
  (i * scores.lefts + j) * scores.rights + k

/-- The score of one cell. The number of the pair of parent and left substate has to be a word, also
where the rights are none and every cell has the offset of its right substate. -/
def get (scores : RuleBlock α) (i j k : Nat) : Except Fault α :=
  if scores.rights == 0 && Word.limit ≤ i * scores.lefts + j then .error .overflow
  else
    match scores.cells[scores.offset i j k]? with
    | some score => .ok score
    | none => .error .outOfRange

def add [Add α] (scores : RuleBlock α) (i j k : Nat) (value : α) :
    Except Fault (RuleBlock α) :=
  let offset := scores.offset i j k
  if inside : offset < scores.cells.size then
    .ok { scores with cells := scores.cells.set offset (scores.cells[offset] + value) inside }
  else .error .outOfRange

def map (f : α → α) (scores : RuleBlock α) : RuleBlock α :=
  { scores with cells := scores.cells.map f }

def rowTotal [Scalar α] (scores : RuleBlock α) (i : Nat) : Except Fault α :=
  let width := scores.width
  if (i + 1) * width ≤ scores.cells.size then
    .ok (Scalar.sum (scores.cells.extract (i * width) ((i + 1) * width)).toList)
  else .error .outOfRange

end RuleBlock

/-- Rules with their scores, each rule before the greater ones. -/
structure RuleTable (α : Type) where
  entries : List (Production × RuleBlock α)
  deriving Repr

namespace RuleTable

variable {α : Type}

instance [BEq α] : BEq (RuleTable α) where
  beq a b := a.entries == b.entries

def empty : RuleTable α := ⟨[]⟩

def size (table : RuleTable α) : Nat := table.entries.length

def find? (table : RuleTable α) (key : Production) : Option (RuleBlock α) :=
  table.entries.lookup key

def place (key : Production) (scores : RuleBlock α) :
    List (Production × RuleBlock α) → List (Production × RuleBlock α)
  | [] => [(key, scores)]
  | (other, old) :: rest =>
    if key == other then (key, scores) :: rest
    else if key.before other then (key, scores) :: (other, old) :: rest
    else (other, old) :: place key scores rest

def insert (table : RuleTable α) (key : Production) (scores : RuleBlock α) : RuleTable α :=
  ⟨place key scores table.entries⟩

def ofList (entries : List (Production × RuleBlock α)) : RuleTable α :=
  entries.foldl (fun table (key, scores) => table.insert key scores) empty

def mapScoresM {β : Type} (f : Production → RuleBlock α → Except Fault (RuleBlock β))
    (table : RuleTable α) : Except Fault (RuleTable β) := do
  return ⟨← table.entries.mapM fun (key, scores) => return (key, ← f key scores)⟩

end RuleTable

end LatentGrammar
