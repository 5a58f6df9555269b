/-!
# The Grain register that fixes the Poseidon constants

Poseidon's round constants and mixing matrix are not chosen by hand: they are read off an
80-bit linear feedback shift register seeded with the instance's parameters. The register
shifts in the exclusive or of its taps 0, 13, 23, 38, 51 and 62; its output is filtered in
pairs, a pair whose first bit is one yielding its second bit, and a pair whose first bit is zero
yielding nothing.

* `Grain.init` lays the parameters into the register and discards 160 bits.
* `Grain.nextBit` is one filtered output bit, and `Grain.nextNumber` reads a number of them
  most significant first.
-/

namespace ZkPolicy

/-- The register, oldest bit first: bit `i` of `bits` is the `i`-th oldest bit. -/
structure Grain where
  bits : Nat

namespace Grain

/-- The register width. -/
def width : Nat := 80

/-- `value` written into `count` bits, most significant first. -/
def bitsBE (value : Nat) : Nat → List Bool
  | 0 => []
  | count + 1 => value.testBit count :: bitsBE value count

/-- The register read as a number from a list of bits, oldest first. -/
def ofBits (bs : List Bool) : Grain :=
  ⟨(bs.zipIdx.foldl (fun acc (b, i) => if b then acc ||| (1 <<< i) else acc) 0)⟩

/-- **One shift.** The new bit is the exclusive or of the taps; it leaves the register as its
newest bit and is also the output. -/
def step (g : Grain) : Bool × Grain :=
  let t := fun i => g.bits.testBit i
  let b := t 62 ^^ t 51 ^^ t 38 ^^ t 23 ^^ t 13 ^^ t 0
  (b, ⟨(g.bits >>> 1) ||| (if b then 1 <<< (width - 1) else 0)⟩)

/-- Discards `count` outputs. -/
def skip (g : Grain) : Nat → Grain
  | 0 => g
  | count + 1 => skip (g.step).2 count

/-- The register for a prime field of `fieldBits` bits, state width `t`, and the given numbers
of full and partial rounds, after its 160 discarded outputs. The first six bits say "prime
field, S-box `x ^ α`". -/
def init (fieldBits t fullRounds partialRounds : Nat) : Grain :=
  let header := [false, true, false, false, false, false] ++ bitsBE fieldBits 12 ++ bitsBE t 12 ++
    bitsBE fullRounds 10 ++ bitsBE partialRounds 10 ++ List.replicate 30 true
  skip (ofBits header) 160

/-- **Filtered output.** Reads pairs until one starts with a one, and gives its second bit;
`tries` bounds the search at that many pairs. The first bits of successive pairs are every
second output of the register, not consecutive ones. Over two elements, every second term of a
sequence of the register's recurrence is again a sequence of that recurrence, and it is zero
only if the first one is; the register is never all zero, so no eighty pairs in a row all start
with a zero, and `width` tries always suffice. -/
def nextBitWithin (g : Grain) : Nat → Bool × Grain
  | 0 => (false, g)
  | tries + 1 =>
    let (first, g) := g.step
    let (second, g) := g.step
    if first then (second, g) else nextBitWithin g tries

/-- One filtered output bit. -/
def nextBit (g : Grain) : Bool × Grain := nextBitWithin g width

/-- Reads `count` filtered bits into a number, most significant first, added to `acc`. -/
def nextNumberFrom (g : Grain) (acc : Nat) : Nat → Nat × Grain
  | 0 => (acc, g)
  | count + 1 =>
    let (b, g) := g.nextBit
    nextNumberFrom g (2 * acc + (if b then 1 else 0)) count

/-- A number of `count` filtered bits, most significant first. -/
def nextNumber (g : Grain) (count : Nat) : Nat × Grain := nextNumberFrom g 0 count

end Grain

end ZkPolicy
