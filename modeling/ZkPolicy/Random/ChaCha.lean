/-!
# The ChaCha block function

ChaCha turns a 256-bit key, a 64-bit block counter and a 64-bit stream number into a block of
sixteen 32-bit words. The state is the four constant words of "expand 32-byte k", the eight key
words, the counter and the stream number (low word first); a double round is four column
quarter-rounds and four diagonal ones; the block is the final state plus the initial state,
word by word. ChaCha12 runs six double rounds.
-/

namespace ZkPolicy

namespace ChaCha

/-- Rotation of a word to the left. -/
def rotl (x : UInt32) (k : UInt32) : UInt32 := (x <<< k) ||| (x >>> (32 - k))

/-- The word at a lane of the state. -/
def lane (s : Vector UInt32 16) (i : Nat) : UInt32 := s.getD i 0

/-- The quarter-round on the words at lanes `a b c d` (each below 16). -/
def quarterRound (s : Vector UInt32 16) (a b c d : Nat) : Vector UInt32 16 :=
  let s := s.setIfInBounds a (lane s a + lane s b)
  let s := s.setIfInBounds d (rotl (lane s d ^^^ lane s a) 16)
  let s := s.setIfInBounds c (lane s c + lane s d)
  let s := s.setIfInBounds b (rotl (lane s b ^^^ lane s c) 12)
  let s := s.setIfInBounds a (lane s a + lane s b)
  let s := s.setIfInBounds d (rotl (lane s d ^^^ lane s a) 8)
  let s := s.setIfInBounds c (lane s c + lane s d)
  s.setIfInBounds b (rotl (lane s b ^^^ lane s c) 7)

/-- A double round: the four columns, then the four diagonals. -/
def doubleRound (s : Vector UInt32 16) : Vector UInt32 16 :=
  let s := quarterRound s 0 4 8 12
  let s := quarterRound s 1 5 9 13
  let s := quarterRound s 2 6 10 14
  let s := quarterRound s 3 7 11 15
  let s := quarterRound s 0 5 10 15
  let s := quarterRound s 1 6 11 12
  let s := quarterRound s 2 7 8 13
  quarterRound s 3 4 9 14

/-- The initial state of a block. -/
def initState (key : Vector UInt32 8) (counter stream : UInt64) : Vector UInt32 16 :=
  #v[0x61707865, 0x3320646e, 0x79622d32, 0x6b206574,
    key.getD 0 0, key.getD 1 0, key.getD 2 0, key.getD 3 0,
    key.getD 4 0, key.getD 5 0, key.getD 6 0, key.getD 7 0,
    counter.toUInt32, (counter >>> 32).toUInt32, stream.toUInt32, (stream >>> 32).toUInt32]

/-- The block of `2 * doubleRounds` rounds for a key, counter and stream. -/
def block (doubleRounds : Nat) (key : Vector UInt32 8) (counter stream : UInt64) :
    Vector UInt32 16 :=
  let s₀ := initState key counter stream
  let s := (List.range doubleRounds).foldl (fun s _ => doubleRound s) s₀
  Vector.zipWith (· + ·) s s₀

end ChaCha

end ZkPolicy
