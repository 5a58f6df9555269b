import ZkPolicy.Field.Residue

/-!
# The base field of BN254

`Fq` is the field of residues modulo the prime `p` over which the curve is defined. Since
`p ≡ 3 (mod 4)`, a square root of a square `a` is `a ^ ((p + 1) / 4)`; `Fq.sqrt?` takes that
candidate and keeps it only if it squares back to `a`.
-/

namespace ZkPolicy

/-- The characteristic `p` of the base field. -/
def Fq.modulus : Nat := 0x30644e72e131a029b85045b68181585d97816a916871ca8d3c208c16d87cfd47

instance instModulusFq : Modulus Fq.modulus := ⟨by decide⟩

/-- The base field of BN254. -/
abbrev Fq := Residue Fq.modulus

namespace Fq

/-- A square root, if `a` is a square. -/
def sqrt? (a : Fq) : Option Fq :=
  let c := a ^ ((Fq.modulus + 1) / 4)
  if c * c = a then some c else none

end Fq

end ZkPolicy
