/-! Sets of code points written as sorted, disjoint spans. A span may step over every other code
point, since capital and small letters alternate in many alphabets. -/

namespace LatentGrammar.Unicode

/-- The code points `first`, `first + stride`, …, `last`. -/
structure Span where
  first : Nat
  last : Nat
  stride : Nat
  deriving Repr, DecidableEq

namespace Span

def contains (span : Span) (code : Nat) : Bool :=
  span.first ≤ code && code ≤ span.last && (code - span.first) % span.stride == 0

/-- The number of entries of a sorted table that start at or below `code`, between two bounds. -/
def rank {Entry : Type} (first : Entry → Nat) (entries : Array Entry) (code low high : Nat) : Nat :=
  if low < high then
    let middle := (low + high) / 2
    match entries[middle]? with
    | none => low
    | some entry =>
      if first entry ≤ code then rank first entries code (middle + 1) high
      else rank first entries code low middle
  else low
termination_by high - low

def lookup? {Entry : Type} (first : Entry → Nat) (entries : Array Entry) (code : Nat) :
    Option Entry :=
  match rank first entries code 0 entries.size with
  | 0 => none
  | index + 1 => entries[index]?

/-- Whether a sorted table of disjoint spans holds `code`. -/
def covers (spans : Array Span) (code : Nat) : Bool :=
  (lookup? Span.first spans code).any (·.contains code)

end Span

end LatentGrammar.Unicode
