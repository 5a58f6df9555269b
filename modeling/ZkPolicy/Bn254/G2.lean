import ZkPolicy.Bn254.Fq2
import ZkPolicy.Bn254.Fr
import ZkPolicy.Curve.Compressed
import ZkPolicy.Encoding.Bytes

/-!
# The second group: the twist over `Fq2`

`G2` is the subgroup of order `r` of the curve `y² = x³ + 3 / ξ` over `Fq2`, with `ξ = 9 + u`.
Unlike the first group, the twist has many points outside that subgroup, so a valid point
must also satisfy `r • P = ∞`.

On the wire a point travels as `[[x.c0, x.c1], [y.c0, y.c1]]`, four canonical 32-byte words
(`G2.Wire`).
-/

namespace ZkPolicy

instance instShortWeierstrassFq2 : ShortWeierstrass Fq2 where
  zero := 0
  coeffB := 3 * Fq2.xi⁻¹
  sqrt? := Fq2.sqrt?
  lt := Fq2.lt
  width := 64
  encode := Fq2.encode
  decode? := Fq2.decode?

/-- Points of the twist; the second group is its subgroup of order `r`. -/
abbrev G2 := Point Fq2

namespace G2

/-- The cofactor of the subgroup: the twist has `cofactor · r` points. -/
def cofactor : Nat := 0x30644e72e131a029b85045b68181585e06ceecda572a2489345f2299c0f9fa8d

/-- Whether `r • P` is the point at infinity. -/
def inSubgroup (p : G2) : Bool := Point.smul Fr.modulus p = .infinity

/-- A valid point: on the twist and in the subgroup of order `r`. -/
def isValid (p : G2) : Bool := p.onCurve && p.inSubgroup

/-- The wire form: the four coordinates as canonical words. -/
structure Wire where
  x0 : Bytes32
  x1 : Bytes32
  y0 : Bytes32
  y1 : Bytes32
deriving DecidableEq

/-- Reads the wire form; refuses non-canonical coordinates and invalid points. -/
def ofWire? (w : Wire) : Option G2 := do
  let x0 ← Residue.ofBytes32? w.x0
  let x1 ← Residue.ofBytes32? w.x1
  let y0 ← Residue.ofBytes32? w.y0
  let y1 ← Residue.ofBytes32? w.y1
  let p : G2 := .affine ⟨x0, x1⟩ ⟨y0, y1⟩
  if isValid p then some p else none

/-- The wire form; the point at infinity is written as four zero words. -/
def toWire : G2 → Wire
  | .infinity => ⟨(0 : Fq).toBytes32, (0 : Fq).toBytes32, (0 : Fq).toBytes32, (0 : Fq).toBytes32⟩
  | .affine x y => ⟨x.c0.toBytes32, x.c1.toBytes32, y.c0.toBytes32, y.c1.toBytes32⟩

/-- Reads a compressed point from the front of the bytes and checks the subgroup. -/
def readCompressed? (bytes : List UInt8) : Option (G2 × List UInt8) := do
  let (p, rest) ← Point.readCompressed? bytes
  if inSubgroup p then some (p, rest) else none

end G2

end ZkPolicy
