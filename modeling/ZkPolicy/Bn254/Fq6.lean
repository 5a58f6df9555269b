import ZkPolicy.Bn254.Fq2

/-!
# The sextic extension `Fq6 = Fq2[v] / (v³ - ξ)`

The middle floor of the pairing tower. Its elements are `c0 + c1 v + c2 v²` with coefficients
in `Fq2`, and `v³ = ξ = 9 + u`.

* `Fq6.mulByV` multiplies by `v`: the coefficients move up one place and the top one wraps
  around times `ξ`.
* `Fq6.inv` uses the adjugate formula of the multiplication matrix.
-/

namespace ZkPolicy

/-- An element `c0 + c1 v + c2 v²` of `Fq6`. -/
structure Fq6 where
  c0 : Fq2
  c1 : Fq2
  c2 : Fq2
deriving DecidableEq, Inhabited

namespace Fq6

instance : Add Fq6 := ⟨fun a b => ⟨a.c0 + b.c0, a.c1 + b.c1, a.c2 + b.c2⟩⟩
instance : Sub Fq6 := ⟨fun a b => ⟨a.c0 - b.c0, a.c1 - b.c1, a.c2 - b.c2⟩⟩
instance : Neg Fq6 := ⟨fun a => ⟨-a.c0, -a.c1, -a.c2⟩⟩

/-- Zero. -/
def zero : Fq6 := ⟨0, 0, 0⟩

/-- One. -/
def one : Fq6 := ⟨1, 0, 0⟩

/-- The product, reducing `v³` to `ξ` and `v⁴` to `ξ v`. -/
instance : Mul Fq6 := ⟨fun a b =>
  ⟨a.c0 * b.c0 + Fq2.xi * (a.c1 * b.c2 + a.c2 * b.c1),
   a.c0 * b.c1 + a.c1 * b.c0 + Fq2.xi * (a.c2 * b.c2),
   a.c0 * b.c2 + a.c1 * b.c1 + a.c2 * b.c0⟩⟩

/-- Multiplication by `v`. -/
def mulByV (a : Fq6) : Fq6 := ⟨Fq2.xi * a.c2, a.c0, a.c1⟩

/-- The inverse; zero goes to zero. -/
instance : Inv Fq6 := ⟨fun a =>
  let t0 := a.c0 * a.c0 - Fq2.xi * (a.c1 * a.c2)
  let t1 := Fq2.xi * (a.c2 * a.c2) - a.c0 * a.c1
  let t2 := a.c1 * a.c1 - a.c0 * a.c2
  let d := (a.c0 * t0 + Fq2.xi * (a.c2 * t1 + a.c1 * t2))⁻¹
  ⟨t0 * d, t1 * d, t2 * d⟩⟩

end Fq6

end ZkPolicy
