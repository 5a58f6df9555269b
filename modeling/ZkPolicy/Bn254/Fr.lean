import ZkPolicy.Field.Residue

/-!
# The scalar field of BN254

`Fr` is the field of residues modulo the prime order `r` of the curve's groups. Every public
signal, salt, hash and circuit value of the library is an element of it; a 64-bit word enters
it unchanged, because every such word is below `r`.
-/

namespace ZkPolicy

/-- The prime order `r` of the BN254 groups. -/
def Fr.modulus : Nat := 0x30644e72e131a029b85045b68181585d2833e84879b9709143e1f593f0000001

instance instModulusFr : Modulus Fr.modulus := ⟨by decide⟩

/-- The scalar field of BN254. -/
abbrev Fr := Residue Fr.modulus

namespace Fr

/-- A 64-bit word as a field element. Every word is below `r`, so nothing wraps. -/
def ofWord (w : UInt64) : Fr := Residue.ofNat Fr.modulus w.toNat

theorem word_lt_modulus (w : UInt64) : w.toNat < Fr.modulus :=
  Nat.lt_of_lt_of_le w.toNat_lt (by decide)

@[simp] theorem val_ofWord (w : UInt64) : (ofWord w).val = w.toNat :=
  Nat.mod_eq_of_lt (word_lt_modulus w)

end Fr

end ZkPolicy
