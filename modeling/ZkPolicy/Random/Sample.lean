import ZkPolicy.Random.Generator
import ZkPolicy.Bn254.G1
import ZkPolicy.Bn254.G2
import ZkPolicy.Bn254.Fr

/-!
# Drawing field elements and curve points

How the seeded setup and prover draw their randomness.

* A residue is drawn as the field arithmetic stores it, in Montgomery form: four 64-bit words
  (low word first) with the bits above the modulus's bit length cleared, drawn again while the
  number is not below the modulus. The number is `x · 2²⁵⁶` for the residue `x` it stands for.
* A point of the first group is drawn as an abscissa and a boolean choosing the larger root,
  drawn again while `x³ + 3` is not a square.
* A point of the second group is drawn the same way on the twist (the abscissa's `c0` first),
  then multiplied by the cofactor to land in the subgroup.

Every draw retries a bounded number of times (`Generator.retryWithin` for the points); each try
succeeds with probability at least one half, so the bounds are never reached.
-/

namespace ZkPolicy

namespace Generator

/-- Draws with `draw` until a draw yields a value, within `tries` draws; `fallback` when none
does. -/
def retryWithin {α : Type} (draw : Generator → Option α × Generator) (fallback : α)
    (g : Generator) : Nat → α × Generator
  | 0 => (fallback, g)
  | tries + 1 =>
    let drawn := draw g
    match drawn.1 with
    | some a => (a, drawn.2)
    | none => retryWithin draw fallback drawn.2 tries

end Generator

namespace Residue

/-- The number of bits of the modulus. -/
def bitLength (n : Nat) : Nat := Nat.log2 n + 1

/-- Four 64-bit draws as one number, low word first, with the bits at and above `bits`
cleared. -/
def drawNumber (bits : Nat) (g : Generator) : Nat × Generator :=
  let (w₀, g) := g.nextU64
  let (w₁, g) := g.nextU64
  let (w₂, g) := g.nextU64
  let (w₃, g) := g.nextU64
  let base := Nat.pow 2 64
  let k := w₀.toNat + base * (w₁.toNat + base * (w₂.toNat + base * w₃.toNat))
  (k % Nat.pow 2 bits, g)

/-- A residue drawn in Montgomery form, within `tries` draws. -/
def sampleWithin (n : Nat) [Modulus n] (g : Generator) : Nat → Residue n × Generator
  | 0 => (ofNat n 0, g)
  | tries + 1 =>
    let (k, g) := drawNumber (bitLength n) g
    if k < n then (ofNat n k * (ofNat n (Nat.pow 2 256))⁻¹, g) else sampleWithin n g tries

/-- A uniformly drawn residue. -/
def sample (n : Nat) [Modulus n] (g : Generator) : Residue n × Generator := sampleWithin n g 128

end Residue

namespace Fr

/-- A uniformly drawn scalar. -/
def sample (g : Generator) : Fr × Generator := Residue.sample Fr.modulus g

end Fr

namespace G1

/-- One draw of a point: an abscissa and a boolean choosing the larger root; nothing when
`x³ + 3` is not a square. -/
def draw (g : Generator) : Option G1 × Generator :=
  let x := Residue.sample Fq.modulus g
  let larger := x.2.nextBool
  (Point.ofX? x.1 larger.1, larger.2)

/-- A point drawn within `tries` draws. -/
def sampleWithin (g : Generator) (tries : Nat) : G1 × Generator :=
  Generator.retryWithin draw .infinity g tries

/-- A uniformly drawn point of the first group. -/
def sample (g : Generator) : G1 × Generator := sampleWithin g 128

end G1

namespace G2

/-- One draw of a point of the twist: an abscissa (its `c0` first) and a boolean choosing the
larger root; nothing when `x³ + b` is not a square. -/
def drawTwist (g : Generator) : Option G2 × Generator :=
  let c0 := Residue.sample Fq.modulus g
  let c1 := Residue.sample Fq.modulus c0.2
  let larger := c1.2.nextBool
  (Point.ofX? (⟨c0.1, c1.1⟩ : Fq2) larger.1, larger.2)

/-- A point of the twist drawn within `tries` draws. -/
def sampleTwistWithin (g : Generator) (tries : Nat) : G2 × Generator :=
  Generator.retryWithin drawTwist .infinity g tries

/-- A uniformly drawn point of the second group: a point of the twist times the cofactor. -/
def sample (g : Generator) : G2 × Generator :=
  let drawn := sampleTwistWithin g 128
  (Point.smul cofactor drawn.1, drawn.2)

end G2

end ZkPolicy
