import ZkPolicy.Curve.Weierstrass

/-!
# Compressed point encoding

A point is written as its abscissa alone, with two flags in the top bits of the last byte:
`0x80` when the ordinate is the larger of the two roots, `0x40` for the point at infinity
(whose abscissa is written as zero). Reading recovers the ordinate from the curve equation.

* Both flags at once are refused, and so is an abscissa that is not canonical.
* A set infinity flag yields the point at infinity whatever abscissa stands beside it.
* `readMany` reads a count of points in a row, stopping at the first that fails.
-/

namespace ZkPolicy

namespace Point

variable {F : Type} [ShortWeierstrass F] [DecidableEq F]

open ShortWeierstrass

/-- The flag of an ordinate that is the larger root. -/
def largerFlag : UInt8 := 0x80

/-- The flag of the point at infinity. -/
def infinityFlag : UInt8 := 0x40

/-- Sets `flag` in the last byte. -/
def flagLast (bytes : List UInt8) (flag : UInt8) : List UInt8 :=
  match bytes.reverse with
  | [] => []
  | last :: front => front.reverse ++ [last ||| flag]

/-- The compressed encoding. -/
def toCompressed : Point F → List UInt8
  | infinity => flagLast (encode (zero : F)) infinityFlag
  | affine x y => if lt (-y) y then flagLast (encode x) largerFlag else encode x

/-- Reads one compressed point from the front of `bytes`, with the rest. The point lies on the
curve by construction; membership in a subgroup is the caller's check. -/
def readCompressed? (bytes : List UInt8) : Option (Point F × List UInt8) :=
  let chunk := bytes.take (width F)
  let rest := bytes.drop (width F)
  if chunk.length < width F then none
  else
    match chunk.reverse with
    | [] => none
    | last :: front => do
      let x : F ← decode? (front.reverse ++ [last &&& 0x3f])
      let larger := last &&& largerFlag != 0
      let atInfinity := last &&& infinityFlag != 0
      if larger && atInfinity then none
      else if atInfinity then some (infinity, rest)
      else (ofX? x larger).map fun p => (p, rest)

/-- Reads `count` items in a row with `read`, after those in `acc`; fails with the first item
that fails. -/
def readMany {α : Type} (read : List UInt8 → Option (α × List UInt8)) (acc : List α)
    (count : Nat) (bytes : List UInt8) : Option (List α × List UInt8) :=
  match count with
  | 0 => some (acc.reverse, bytes)
  | k + 1 =>
    match read bytes with
    | none => none
    | some (a, rest) => readMany read (a :: acc) k rest

end Point

end ZkPolicy
