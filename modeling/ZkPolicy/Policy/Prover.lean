import ZkPolicy.Policy.Circuit
import ZkPolicy.Policy.Signals
import ZkPolicy.Groth16.Prove

/-!
# Proving a policy

The setup of the policy circuit depends only on its shape, so it is run on the all-zero
instance. A proof is produced only for attributes that satisfy the policy: the circuit is
built with the root the attributes commit to, and if its assignment violates a constraint the
prover refuses with the index of the first violated one.

* `testSetup` is the setup for the well-known test seed `0xDEADBEEFCAFEBABE`.
-/

namespace ZkPolicy

open Groth16

/-- The setup of the policy circuit for a seed. -/
def policySetup (seed : UInt64) : Setup :=
  Groth16.setup (Circuit.policySystem {} {} {} (({} : Attributes).commitment {})) seed

/-- The seed of the well-known test setup. -/
def testSeed : UInt64 := 0xDEADBEEFCAFEBABE

/-- The well-known test setup. -/
def testSetup : Setup := policySetup testSeed

/-- **Proving.** A proof that the attributes behind `commitment a s` satisfy the policy, with
its public signals; refused with the first violated constraint otherwise. -/
def proveWith (st : Setup) (p : Policy) (a : Attributes) (s : Salts) (g : Generator) :
    Except ProverError (Proof × List Fr) :=
  let root := a.commitment s
  let sys := Circuit.policySystem p a s root
  match sys.firstViolation with
  | some k => .error (.violated k)
  | none => .ok ((st.prove sys g).1, p.publicInputs root)

end ZkPolicy
