import ZkPolicy.Bn254.Fq
import ZkPolicy.Curve.Compressed
import ZkPolicy.Encoding.Bytes

/-!
# The first group: BN254 over `Fq`

`G1` is the curve `y² = x³ + 3` over `Fq`. Its points form a group of prime order `r`, so
every point on the curve lies in the group and validity is the curve equation alone.

On the wire a point travels as its two coordinates, each a canonical 32-byte word
(`G1.Wire`). Reading refuses non-canonical coordinates and points off the curve; the point at
infinity has no wire form of its own: it is written as two zero words, which are refused when
read, since `(0, 0)` is not on the curve.
-/

namespace ZkPolicy

instance instShortWeierstrassFq : ShortWeierstrass Fq where
  zero := 0
  coeffB := 3
  sqrt? := Fq.sqrt?
  lt a b := decide (a < b)
  width := 32
  encode := Residue.toLE
  decode? := Residue.ofLE?

/-- The first group. -/
abbrev G1 := Point Fq

namespace G1

/-- A valid point: on the curve (the whole curve is the group). -/
def isValid (p : G1) : Bool := p.onCurve

/-- The wire form: both coordinates as canonical words. -/
structure Wire where
  x : Bytes32
  y : Bytes32
deriving DecidableEq

/-- Reads the wire form; refuses non-canonical coordinates and points off the curve. -/
def ofWire? (w : Wire) : Option G1 := do
  let x ← Residue.ofBytes32? w.x
  let y ← Residue.ofBytes32? w.y
  let p : G1 := .affine x y
  if isValid p then some p else none

/-- The wire form; the point at infinity is written as two zero words. -/
def toWire : G1 → Wire
  | .infinity => ⟨(0 : Fq).toBytes32, (0 : Fq).toBytes32⟩
  | .affine x y => ⟨x.toBytes32, y.toBytes32⟩

/-- Reads a compressed point from the front of the bytes (always valid when read). -/
def readCompressed? (bytes : List UInt8) : Option (G1 × List UInt8) :=
  Point.readCompressed? bytes

end G1

end ZkPolicy
