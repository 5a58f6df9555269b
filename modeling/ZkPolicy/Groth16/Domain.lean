import ZkPolicy.Bn254.Fr

/-!
# Evaluation domains

An evaluation domain is the subgroup of `n`-th roots of unity of `Fr`, for `n` a power of two
(`r - 1` is divisible by `2²⁸`). Its generator is `ω = 5 ^ ((r - 1) / n)`: five generates the
whole multiplicative group, so `ω` has order exactly `n`.

* `Domain.vanishing τ = τⁿ - 1` vanishes exactly on the domain.
* `Domain.lagrangeAt τ` lists `Lⱼ(τ) = Z(τ) · ωʲ / (n · (τ - ωʲ))` for `j < n`: the Lagrange
  basis of the domain evaluated at a point `τ` outside it.
-/

namespace ZkPolicy

namespace Groth16

/-- The domain of the `2 ^ logSize`-th roots of unity. -/
structure Domain where
  logSize : Nat

namespace Domain

/-- The smallest domain with at least `m` points. -/
def ofMinSize (m : Nat) : Domain := ⟨if m ≤ 1 then 0 else Nat.log2 (m - 1) + 1⟩

/-- The number of points. -/
def size (d : Domain) : Nat := Nat.pow 2 d.logSize

/-- The generator `ω = 5 ^ ((r - 1) / n)`. -/
def generator (d : Domain) : Fr := (5 : Fr) ^ ((Fr.modulus - 1) / d.size)

/-- The vanishing polynomial `τⁿ - 1`. -/
def vanishing (d : Domain) (τ : Fr) : Fr := τ ^ d.size - 1

/-- The Lagrange basis at `τ`, from `L₀(τ)` to `Lₙ₋₁(τ)`. -/
def lagrangeAt (d : Domain) (τ : Fr) : Array Fr :=
  let z := d.vanishing τ * (Residue.ofNat Fr.modulus d.size)⁻¹
  let ω := d.generator
  let (out, _) := (List.range d.size).foldl (fun (out, w) _ =>
    (out.push (z * w * (τ - w)⁻¹), w * ω)) ((Array.emptyWithCapacity d.size : Array Fr), (1 : Fr))
  out

end Domain

end Groth16

end ZkPolicy
