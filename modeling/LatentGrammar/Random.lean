import LatentGrammar.Scalar

/-! Random streams. Noise is drawn through a class, so that everything that uses noise can be stated
for an arbitrary stream; programs use a permuted congruential generator with 128 bits of state. -/

namespace LatentGrammar

class Draws (γ : Type) (α : outParam Type) where
  draw : γ → α × γ

/-- A factor close to one: noise of up to `randomness` percent. -/
def perturbation {γ α : Type} [Scalar α] [Draws γ α] (randomness : α) (stream : γ) : α × γ :=
  let (u, stream) := Draws.draw stream
  (1 + randomness / ((100 : Nat) : α) * (u * ((2 : Nat) : α) - 1), stream)

structure Generator where
  state : BitVec 128
  deriving Repr, DecidableEq

namespace Generator

def multiplier : BitVec 128 := 47026247687942121848144207491837523525

def increment : BitVec 128 := (0x2FE0E169FFBD06E35BC307BD4D2F814F#128 <<< 1) ||| 1

/-- Sixty-four random bits. The high bits of the old state say how far its folded middle is
rotated. -/
def next (generator : Generator) : UInt64 × Generator :=
  let old := generator.state
  let folded := (((old >>> 29) ^^^ old) >>> 58).toNat
  let word : BitVec 64 := BitVec.ofNat 64 folded
  let rotation := (old >>> 122).toNat
  (UInt64.ofBitVec (word.rotateRight rotation), ⟨old * multiplier + increment⟩)

def ofSeed (seed : Nat) : Generator :=
  let (_, started) := next ⟨0⟩
  (next ⟨started.state + BitVec.ofNat 128 seed⟩).2

def float (generator : Generator) : Float × Generator :=
  let (bits, generator) := generator.next
  (Float.scaleB (bits >>> 11).toFloat (-53), generator)

instance : Draws Generator Float where
  draw := float

end Generator

end LatentGrammar
