import ZkPolicy.Bn254.Fq
import ZkPolicy.Field.Power

/-!
# The quadratic extension `Fq2 = Fq[u] / (u² + 1)`

The coordinates of the second group live in `Fq2`. Its elements are `c0 + c1 u`.

* `Fq2.inv` divides the conjugate by the norm `c0² + c1²`, an element of `Fq`.
* `Fq2.sqrt?`: `a` is a square exactly when its norm is a square in `Fq`; the root is then
  built from the root of the norm.
* Elements are compared by `c1` first and then by `c0`; that order tells `y` from `-y`.
-/

namespace ZkPolicy

/-- An element `c0 + c1 u` of `Fq2`. -/
structure Fq2 where
  c0 : Fq
  c1 : Fq
deriving DecidableEq, Inhabited

namespace Fq2

instance : Add Fq2 := ⟨fun a b => ⟨a.c0 + b.c0, a.c1 + b.c1⟩⟩
instance : Sub Fq2 := ⟨fun a b => ⟨a.c0 - b.c0, a.c1 - b.c1⟩⟩
instance : Neg Fq2 := ⟨fun a => ⟨-a.c0, -a.c1⟩⟩

/-- `(a0 + a1 u)(b0 + b1 u) = (a0 b0 - a1 b1) + (a0 b1 + a1 b0) u`. -/
instance : Mul Fq2 := ⟨fun a b => ⟨a.c0 * b.c0 - a.c1 * b.c1, a.c0 * b.c1 + a.c1 * b.c0⟩⟩

/-- The embedding of `Fq`. -/
def ofFq (a : Fq) : Fq2 := ⟨a, 0⟩

instance : OfNat Fq2 k := ⟨ofFq (OfNat.ofNat k)⟩

/-- The conjugate `c0 - c1 u`; it is also the Frobenius map `a ↦ a ^ p`. -/
def conj (a : Fq2) : Fq2 := ⟨a.c0, -a.c1⟩

/-- The norm `c0² + c1²`. -/
def norm (a : Fq2) : Fq := a.c0 * a.c0 + a.c1 * a.c1

/-- Multiplication by an element of `Fq`. -/
def scale (a : Fq2) (k : Fq) : Fq2 := ⟨a.c0 * k, a.c1 * k⟩

/-- The inverse: conjugate over norm; zero goes to zero. -/
instance : Inv Fq2 := ⟨fun a => a.conj.scale (a.norm)⁻¹⟩

/-- `a ^ e`, by square and multiply. -/
def pow (a : Fq2) (e : Nat) : Fq2 := powBySquaring 1 a e

/-- The element `ξ = 9 + u` over which the tower and the twist are built. -/
def xi : Fq2 := ⟨9, 1⟩

/-- Order by `c1`, then by `c0`. -/
def lt (a b : Fq2) : Bool := a.c1 < b.c1 || (a.c1 = b.c1 && a.c0 < b.c0)

/-- **Square root.** For `c1 = 0` the root lies in `Fq` or in `Fq · u`; otherwise, with
`α = √(c0² + c1²)`, one of `(c0 ± α) / 2` is a square `x0²` and `x0 + c1 / (2 x0) · u` is a
root. The result is kept only if it squares back to `a`. -/
def sqrt? (a : Fq2) : Option Fq2 :=
  let candidate : Option Fq2 :=
    if a.c1 = 0 then
      match Fq.sqrt? a.c0 with
      | some r => some ⟨r, 0⟩
      | none => (Fq.sqrt? (-a.c0)).map fun r => ⟨0, r⟩
    else do
      let alpha ← Fq.sqrt? a.norm
      let half : Fq := (2 : Fq)⁻¹
      let x0 ← match Fq.sqrt? ((a.c0 + alpha) * half) with
        | some r => some r
        | none => Fq.sqrt? ((a.c0 - alpha) * half)
      some ⟨x0, a.c1 * (x0 + x0)⁻¹⟩
  candidate.bind fun r => if r * r = a then some r else none

@[simp] theorem add_c1 (a b : Fq2) : (a + b).c1 = a.c1 + b.c1 := rfl

@[simp] theorem mul_c1 (a b : Fq2) : (a * b).c1 = a.c0 * b.c1 + a.c1 * b.c0 := rfl

@[simp] theorem inv_c1 (a : Fq2) : a⁻¹.c1 = -a.c1 * a.norm⁻¹ := rfl

/-- The encoding: `c0` then `c1`, each 32 little-endian bytes. -/
def encode (a : Fq2) : List UInt8 := a.c0.toLE ++ a.c1.toLE

/-- Reads `c0` then `c1`, each canonical. -/
def decode? (bytes : List UInt8) : Option Fq2 := do
  let c0 ← Residue.ofLE? (bytes.take 32)
  let c1 ← Residue.ofLE? (bytes.drop 32)
  pure ⟨c0, c1⟩

end Fq2

end ZkPolicy
