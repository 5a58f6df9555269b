/-!
# Points of a short Weierstrass curve

The curves of the library have the form `y² = x³ + b`. A point is the point at infinity or an
affine pair; the group law is the chord-and-tangent rule in affine coordinates, with the point at
infinity as the identity.

* `ShortWeierstrass F` is what a coordinate field must supply: its arithmetic, the coefficient
  `b`, square roots, the order that tells `y` from `-y`, and its byte encoding.
* `Point.add`, `Point.double`, `Point.neg` and `Point.smul` form the group law; `Point.smul` is
  double-and-add over the bits of the scalar, most significant first.
* `Point.ofX?` recovers a point from `x` and a choice between the two roots `y`.
-/

namespace ZkPolicy

/-- A coordinate field of a curve `y² = x³ + b`. -/
class ShortWeierstrass (F : Type) extends Add F, Sub F, Mul F, Neg F, Inv F where
  zero : F
  /-- The coefficient `b` of the curve. -/
  coeffB : F
  /-- A square root of `a`, if `a` is a square. -/
  sqrt? : F → Option F
  /-- The order in which the two roots `y`, `-y` are compared. -/
  lt : F → F → Bool
  /-- The number of bytes of an encoded coordinate. -/
  width : Nat
  /-- The canonical little-endian encoding, `width` bytes. -/
  encode : F → List UInt8
  /-- Reads `width` bytes; refuses a non-canonical encoding. -/
  decode? : List UInt8 → Option F

/-- A point of the curve: the point at infinity or an affine pair. -/
inductive Point (F : Type) where
  | infinity
  | affine (x y : F)
deriving DecidableEq, Inhabited

namespace Point

variable {F : Type} [ShortWeierstrass F] [DecidableEq F]

open ShortWeierstrass

/-- The right-hand side `x³ + b`. -/
def rhs (x : F) : F := x * x * x + coeffB

/-- Whether the point satisfies the curve equation; the point at infinity does. -/
def onCurve : Point F → Bool
  | infinity => true
  | affine x y => y * y = rhs x

/-- The inverse: `(x, -y)`. -/
def neg : Point F → Point F
  | infinity => infinity
  | affine x y => affine x (-y)

/-- The point on the line of slope `m` through `(x₁, y₁)` and a point with abscissa `x₂`,
reflected: the third intersection, negated. -/
def chord (m x₁ y₁ x₂ : F) : Point F :=
  let x₃ := m * m - x₁ - x₂
  affine x₃ (m * (x₁ - x₃) - y₁)

/-- **Doubling** by the tangent; a point with `y = 0` doubles to infinity. -/
def double : Point F → Point F
  | infinity => infinity
  | affine x y =>
    if y = zero then infinity
    else chord ((x * x + x * x + x * x) * (y + y)⁻¹) x y x

/-- **Addition** by the chord; a point plus its inverse is infinity. -/
def add : Point F → Point F → Point F
  | infinity, q => q
  | p, infinity => p
  | affine x₁ y₁, affine x₂ y₂ =>
    if x₁ = x₂ then
      if y₁ = y₂ then double (affine x₁ y₁) else infinity
    else chord ((y₂ - y₁) * (x₂ - x₁)⁻¹) x₁ y₁ x₂

/-- **Scalar multiple** `k • p`, double-and-add over the bits of `k`. -/
def smul (k : Nat) (p : Point F) : Point F :=
  if h : k = 0 then infinity
  else
    let half := double (smul (k / 2) p)
    if k % 2 = 1 then add half p else half
termination_by k
decreasing_by exact Nat.div_lt_self (Nat.pos_of_ne_zero h) (by decide)

/-- The two roots of `y² = x³ + b`, smaller first, if there are any. -/
def roots (x : F) : Option (F × F) :=
  (sqrt? (rhs x)).map fun y => if lt (-y) y then (-y, y) else (y, -y)

/-- The point with abscissa `x` whose ordinate is the larger root if `larger`, else the
smaller one; `none` if `x³ + b` is not a square. -/
def ofX? (x : F) (larger : Bool) : Option (Point F) :=
  (roots x).map fun (small, large) => affine x (if larger then large else small)

end Point

end ZkPolicy
