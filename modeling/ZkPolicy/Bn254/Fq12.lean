import ZkPolicy.Bn254.Fq6
import ZkPolicy.Field.Power

/-!
# The dodecic extension `Fq12 = Fq6[w] / (w² - v)`

The top of the pairing tower, where pairings take their values. Its elements are `c0 + c1 w`
with coefficients in `Fq6`; since `w² = v`, also `w⁶ = ξ`, and the element reads
`Σ aₑ wᵉ` with the six `Fq2` coefficients `aₑ`.

* `Fq12.conj` is `c0 - c1 w`, the map `a ↦ a ^ (p⁶)`.
* `Fq12.frobenius2` is `a ↦ a ^ (p²)`: it fixes `Fq2` and sends `wᵉ` to `γᵉ wᵉ` with
  `γ = ξ ^ ((p² - 1) / 6)`.
-/

namespace ZkPolicy

/-- An element `c0 + c1 w` of `Fq12`. -/
structure Fq12 where
  c0 : Fq6
  c1 : Fq6
deriving DecidableEq, Inhabited

namespace Fq12

/-- One. -/
def one : Fq12 := ⟨Fq6.one, Fq6.zero⟩

instance : OfNat Fq12 1 := ⟨one⟩

/-- The product, with `w² = v`. -/
instance : Mul Fq12 := ⟨fun a b =>
  ⟨a.c0 * b.c0 + (a.c1 * b.c1).mulByV, a.c0 * b.c1 + a.c1 * b.c0⟩⟩

/-- The inverse: `(c0 - c1 w) / (c0² - v c1²)`. -/
instance : Inv Fq12 := ⟨fun a =>
  let t := (a.c0 * a.c0 - (a.c1 * a.c1).mulByV)⁻¹
  ⟨a.c0 * t, -(a.c1 * t)⟩⟩

/-- The conjugate `c0 - c1 w`, equal to `a ^ (p⁶)`. -/
def conj (a : Fq12) : Fq12 := ⟨a.c0, -a.c1⟩

/-- `a ^ e`, by square and multiply. -/
def pow (a : Fq12) (e : Nat) : Fq12 := powBySquaring 1 a e

/-- `γ = ξ ^ ((p² - 1) / 6)`, the factor of `w` under `a ↦ a ^ (p²)`. -/
def frobenius2Factor : Fq2 := Fq2.xi.pow ((Fq.modulus * Fq.modulus - 1) / 6)

/-- `a ^ (p²)`: the coefficient of `wᵉ` is multiplied by `γᵉ`. -/
def frobenius2 (a : Fq12) : Fq12 :=
  let g := frobenius2Factor
  let g2 := g * g
  let g3 := g2 * g
  let g4 := g3 * g
  let g5 := g4 * g
  ⟨⟨a.c0.c0, a.c0.c1 * g2, a.c0.c2 * g4⟩, ⟨a.c1.c0 * g, a.c1.c1 * g3, a.c1.c2 * g5⟩⟩

end Fq12

end ZkPolicy
