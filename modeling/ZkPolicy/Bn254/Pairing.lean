import ZkPolicy.Bn254.G1
import ZkPolicy.Bn254.G2
import ZkPolicy.Bn254.Fq12

/-!
# The optimal ate pairing

The pairing `e : G1 × G2 → Fq12` of BN254, as the optimal ate pairing: a Miller loop over the
bits of `6x + 2` (`x` the curve's seed), two more lines through Frobenius images of the second
point, and the final exponentiation to the power `(p¹² - 1) / r`.

The second point lives on the twist; it is carried to the curve over `Fq12` by
`(x, y) ↦ (x w², y w³)`. A line through two such points, evaluated at `(xP, yP)` of the first
group, is `-yP + λ xP w + (y₁ - λ x₁) w³`, with `λ` the slope on the twist. Vertical lines
take values in `Fq6`, which the final exponentiation sends to one, so they are skipped.

* `pairingProduct pairs` is the product of the pairings of all pairs; pairs with a point at
  infinity contribute one.
-/

namespace ZkPolicy

namespace Pairing

/-- The seed `x` of the BN254 family. -/
def seed : Nat := 4965661367192848881

/-- The Miller loop length `6x + 2`. -/
def loopCount : Nat := 6 * seed + 2

/-- `ξ ^ ((p - 1) / 3)`, the factor of `x` under the Frobenius map of the twist. -/
def frobeniusX : Fq2 := Fq2.xi.pow ((Fq.modulus - 1) / 3)

/-- `ξ ^ ((p - 1) / 2)`, the factor of `y` under the Frobenius map of the twist. -/
def frobeniusY : Fq2 := Fq2.xi.pow ((Fq.modulus - 1) / 2)

/-- `ξ ^ ((p² - 1) / 3)`, the factor of `x` under the square of the Frobenius map. -/
def frobenius2X : Fq2 := Fq2.xi.pow ((Fq.modulus * Fq.modulus - 1) / 3)

/-- `ξ ^ ((p² - 1) / 2)`, the factor of `y` under the square of the Frobenius map. -/
def frobenius2Y : Fq2 := Fq2.xi.pow ((Fq.modulus * Fq.modulus - 1) / 2)

/-- The Frobenius map `π` on the twist, in twisted coordinates. -/
def frobenius : G2 → G2
  | .infinity => .infinity
  | .affine x y => .affine (x.conj * frobeniusX) (y.conj * frobeniusY)

/-- `-π²`, in twisted coordinates. -/
def negFrobenius2 : G2 → G2
  | .infinity => .infinity
  | .affine x y => .affine (x * frobenius2X) (-(y * frobenius2Y))

/-- The slope of the line through `t₁` and `t₂` (the tangent if they are equal), or `none`
for a vertical line or a point at infinity. -/
def slope? : G2 → G2 → Option Fq2
  | .affine x₁ y₁, .affine x₂ y₂ =>
    if x₁ = x₂ then
      if y₁ = y₂ ∧ y₁ ≠ 0 then some ((x₁ * x₁ + x₁ * x₁ + x₁ * x₁) * (y₁ + y₁)⁻¹) else none
    else some ((y₂ - y₁) * (x₂ - x₁)⁻¹)
  | _, _ => none

/-- **Line value.** The line through `t₁` and `t₂`, evaluated at the point `(xP, yP)` of the
first group; one for a vertical line. -/
def lineAt (t₁ t₂ : G2) (xP yP : Fq) : Fq12 :=
  match slope? t₁ t₂, t₁ with
  | some m, .affine x₁ y₁ => ⟨⟨Fq2.ofFq (-yP), 0, 0⟩, ⟨m.scale xP, y₁ - m * x₁, 0⟩⟩
  | _, _ => 1

/-- A pair in the Miller loop: the first point's coordinates, the second point, and the
running multiple of the second point. -/
structure Lane where
  xP : Fq
  yP : Fq
  q : G2
  t : G2

/-- One loop step for bit `b`: square, double every lane, and add the base point where `b`
is set, multiplying in each line. -/
def step (b : Bool) (acc : Fq12 × List Lane) : Fq12 × List Lane :=
  let (f, lanes) := acc
  let f := lanes.foldl (fun f l => f * lineAt l.t l.t l.xP l.yP) (f * f)
  let lanes := lanes.map fun l => { l with t := l.t.double }
  if b then
    (lanes.foldl (fun f l => f * lineAt l.t l.q l.xP l.yP) f,
      lanes.map fun l => { l with t := l.t.add l.q })
  else (f, lanes)

/-- The bits of the loop count below its leading one, most significant first. -/
def loopBits : List Bool := (List.range (Nat.log2 loopCount)).reverse.map loopCount.testBit

/-- **Miller loop** of several pairs at once, with the two Frobenius lines at the end. Pairs
with a point at infinity are left out. -/
def millerLoop (pairs : List (G1 × G2)) : Fq12 :=
  let lanes := pairs.filterMap fun
    | (.affine xP yP, q@(.affine _ _)) => some { xP, yP, q, t := q }
    | _ => none
  let (f, lanes) := loopBits.foldl (fun acc b => step b acc) (1, lanes)
  lanes.foldl (fun f l =>
    let q1 := frobenius l.q
    let q2 := negFrobenius2 l.q
    let t := l.t.add q1
    f * lineAt l.t q1 l.xP l.yP * lineAt t q2 l.xP l.yP) f

/-- The hard part of the final exponent, `(p⁴ - p² + 1) / r`. -/
def hardExponent : Nat :=
  (Nat.pow Fq.modulus 4 - Nat.pow Fq.modulus 2 + 1) / Fr.modulus

/-- **Final exponentiation** to `(p¹² - 1) / r`, as `(p⁶ - 1)`, then `(p² + 1)`, then the hard
part. -/
def finalExponentiation (f : Fq12) : Fq12 :=
  let f := f.conj * f⁻¹
  let f := f.frobenius2 * f
  f.pow hardExponent

/-- The product of the pairings of all pairs. -/
def pairingProduct (pairs : List (G1 × G2)) : Fq12 := finalExponentiation (millerLoop pairs)

end Pairing

end ZkPolicy
