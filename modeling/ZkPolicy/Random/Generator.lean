import ZkPolicy.Random.ChaCha

/-!
# A seeded generator of random words

The deterministic generator of the library: the ChaCha12 keystream of a key, on stream zero
from block zero, read as 32-bit words in order. A 64-bit draw is two words, the first one low;
a boolean draw is the top bit of a word.

A 64-bit seed becomes a key through the PCG32 generator: its 64-bit state is multiplied by
`6364136223846793005` and increased by `11634580027462260723`, then the output word is the
state's high bits `((s >> 18) ^ s) >> 27` rotated right by `s >> 59`; eight outputs, each
written little-endian, are the 32 key bytes.
-/

namespace ZkPolicy

/-- A position in the keystream of a key. -/
structure Generator where
  key : Vector UInt32 8
  /-- The block after the buffered one. -/
  nextBlock : UInt64
  /-- Unread words of the current block. -/
  buffer : List UInt32

namespace Generator

/-- ChaCha12: six double rounds. -/
def doubleRounds : Nat := 6

/-- The start of the keystream of a key. -/
def ofKey (key : Vector UInt32 8) : Generator := ⟨key, 0, []⟩

/-- The next word of the keystream. -/
def nextWord (g : Generator) : UInt32 × Generator :=
  match g.buffer with
  | w :: rest => (w, { g with buffer := rest })
  | [] =>
    match (ChaCha.block doubleRounds g.key g.nextBlock 0).toList with
    | w :: rest => (w, { g with nextBlock := g.nextBlock + 1, buffer := rest })
    | [] => (0, g)

/-- The next 64-bit word: two words, the first one low. -/
def nextU64 (g : Generator) : UInt64 × Generator :=
  let (lo, g) := g.nextWord
  let (hi, g) := g.nextWord
  (lo.toUInt64 ||| (hi.toUInt64 <<< 32), g)

/-- The next boolean: the top bit of a word. -/
def nextBool (g : Generator) : Bool × Generator :=
  let (w, g) := g.nextWord
  (w >>> 31 = 1, g)

/-- One step of PCG32: the advanced state and its output word. -/
def pcgStep (s : UInt64) : UInt32 × UInt64 :=
  let s := s * 6364136223846793005 + 11634580027462260723
  let xorshifted := (((s >>> 18) ^^^ s) >>> 27).toUInt32
  let rot := (s >>> 59).toUInt32
  ((xorshifted >>> rot) ||| (xorshifted <<< ((32 - rot) % 32)), s)

/-- Eight PCG32 outputs from a seed. -/
def pcgWords (s : UInt64) : Nat → List UInt32
  | 0 => []
  | k + 1 =>
    let (w, s) := pcgStep s
    w :: pcgWords s k

/-- The generator seeded by a 64-bit word. -/
def ofSeed (seed : UInt64) : Generator :=
  ofKey (Vector.ofFn fun i => (pcgWords seed 8).getD i.val 0)

end Generator

end ZkPolicy
