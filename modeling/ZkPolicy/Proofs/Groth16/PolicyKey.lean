import Mathlib
import ZkPolicy.Proofs.Groth16.SetupKey
import ZkPolicy.Proofs.Curve.TwistOrder
import ZkPolicy.Proofs.Circuit.Witnesses
import ZkPolicy.Proofs.Ledger.StoredKey

/-!
# One key for every policy

The setup runs once, on the circuit of the default policy and attributes, and its key serves
every policy and every holder. This module puts the pieces together. The circuit has one shape
for every input, so the default circuit's setup is the setup of every circuit; its key expects
the eleven signals; and since the twist has `h · r` points (`G2.twist_nsmul_eq_zero`), the key's
points of the second group pass the subgroup check, so the verifier accepts the key's bytes.

* `Point.length_toCompressed`, `Groth16.VerifyingKey.length_toBytes`: a compressed point takes
  the width of its coordinate, and a key `232 + 32 · n` bytes for `n` input points.
* `acceptsKey_policySetup`: the verifier accepts the bytes of the key of every seed, and
  `ofWire?_toWire_of_proveWith_policySetup`: a proof the prover returns reads back from its wire
  form exactly when none of its points is at infinity.
* `Chain.step_setVerificationKey_of_accepts`: on a chain that runs the verifier, the root's call
  with bytes that fit and that the verifier accepts stores them and logs one event.
* `policySetup_fits_every_circuit`: for every two inputs, the policy systems have one shape with
  12 instance variables, 1992 witnesses and 2008 constraints; the setup of every seed is that of
  every circuit, its key expects 11 signals, and the root's call to store it succeeds.
-/

namespace ZkPolicy

open Circuit Groth16

/-! ### The size of a key -/

namespace Point

theorem length_flagLast (bytes : List UInt8) (flag : UInt8) :
    (flagLast bytes flag).length = bytes.length := by
  have hrev : bytes.reverse.length = bytes.length := List.length_reverse
  unfold flagLast
  split
  · next h => rw [← hrev, h]
  · next last front h =>
    rw [h] at hrev
    simp only [List.length_append, List.length_reverse, List.length_singleton]
    simpa using hrev

variable {F : Type} [ShortWeierstrass F]

/-- A compressed point takes the width of its coordinate, flag or none. -/
theorem length_toCompressed (L : ShortWeierstrass.Laws F) (P : Point F) :
    P.toCompressed.length = ShortWeierstrass.width F := by
  cases P with
  | infinity => rw [toCompressed, length_flagLast, L.length_encode]
  | affine x y =>
    rw [toCompressed]
    split
    · rw [length_flagLast, L.length_encode]
    · rw [L.length_encode]

end Point

/-- A key's bytes: four points of 32, 64, 64 and 64 bytes, the count in eight, and 32 bytes for
each input point. -/
theorem Groth16.VerifyingKey.length_toBytes (vk : VerifyingKey) :
    vk.toBytes.length = 232 + 32 * vk.gammaAbc.length := by
  have hG1 (P : G1) : P.toCompressed.length = 32 := Point.length_toCompressed Fq.laws P
  have hG2 (P : G2) : P.toCompressed.length = 64 := Point.length_toCompressed Fq2.laws P
  rw [toBytes]
  simp only [List.length_append, List.length_flatMap, hG1, hG2, lengthBytes,
    Residue.length_leBytes, List.map_const', List.sum_replicate, smul_eq_mul]
  omega

/-! ### The policy setup's key -/

/-- **The verifier accepts the key of every seeded setup.** -/
theorem acceptsKey_policySetup (seed : UInt64) :
    Verifier.acceptsKey (policySetup seed).vk.toBytes = true :=
  acceptsKey_policySetup_of_exponent G2.twist_nsmul_eq_zero seed

/-- With the policy setup of any seed, a proof the prover returns reads back from its wire form
exactly when none of its points is the point at infinity. -/
theorem ofWire?_toWire_of_proveWith_policySetup {seed : UInt64} {p : Policy} {a : Attributes}
    {s : Salts} {g : Generator} {proof : Proof} {xs : List Fr}
    (h : proveWith (policySetup seed) p a s g = .ok (proof, xs)) :
    Proof.ofWire? proof.toWire = some proof ↔
      proof.a ≠ .infinity ∧ proof.b ≠ .infinity ∧ proof.c ≠ .infinity :=
  ofWire?_toWire_of_proveWith G2.twist_nsmul_eq_zero h

/-- The key of every setup fits a key call: 616 bytes. -/
theorem length_policySetup_toBytes (seed : UInt64) :
    (policySetup seed).vk.toBytes.length ≤ maxKeyLength := by
  rw [VerifyingKey.length_toBytes, policySetup, length_gammaAbc_setup, numInputs_policySystem]
  decide

namespace Chain

/-- **Storing an accepted key.** On a chain that runs the verifier, the root's key call with
bytes that fit and that the verifier accepts stores them, and its one event is logged. -/
theorem step_setVerificationKey_of_accepts {c : Chain} (hc : c.runtime = .full)
    {key : List UInt8} (hlen : key.length ≤ maxKeyLength) (hkey : Verifier.acceptsKey key = true) :
    c.step (.submit .root (.setVerificationKey key)) =
      ({ c with verifier := { c.verifier with verificationKey := some key }
                events := [.verificationKeySet] },
        .dispatched (.ok [.verificationKeySet])) := by
  have hdispatch := setVerificationKey_contract c.clearEvents .root key
  simp only [Origin.isAdmin, hkey, Bool.true_eq_false, ↓reduceIte] at hdispatch
  have hbounds : (Call.setVerificationKey key).withinBounds = true := decide_eq_true hlen
  have hhosts : c.runtime.hosts (Step.submit .root (.setVerificationKey key)).pallet = true := by
    rw [hc]
    rfl
  simp only [step, hhosts, hbounds, hdispatch, Bool.not_true, Bool.false_eq_true, ↓reduceIte]
  rfl

end Chain

/-- **One setup fits every policy.** For every two inputs of the policy circuit (policies,
attributes, salts and roots), the systems have one shape: the instance variables are the
constant one and the eleven signals in order, twelve in all, and both have 1992 witness
variables and the same 2008 constraints. So the setup of the default circuit is the setup of
every circuit, for every seed, and its key expects the eleven signals; on a chain that runs the
verifier, the root's call to store the key's bytes succeeds. -/
theorem policySetup_fits_every_circuit (p p' : Policy) (a a' : Attributes) (s s' : Salts)
    (root root' : Fr) (seed : UInt64) {c : Chain} (hc : c.runtime = .full) :
    (policySystem p a s root).SameShape (policySystem p' a' s' root') ∧
      (policySystem p a s root).inputs = #[1] ++ (p.publicInputs root).toArray ∧
      (policySystem p a s root).numInputs = 12 ∧
      (policySystem p a s root).numWitnesses = 1992 ∧
      (policySystem p a s root).numConstraints = 2008 ∧
      policySetup seed = Groth16.setup (policySystem p a s root) seed ∧
      (policySetup seed).vk.inputCount = 11 ∧
      c.step (.submit .root (.setVerificationKey (policySetup seed).vk.toBytes)) =
        ({ c with verifier := { c.verifier with
                    verificationKey := some (policySetup seed).vk.toBytes }
                  events := [.verificationKeySet] },
          .dispatched (.ok [.verificationKeySet])) := by
  obtain ⟨hshape, hinputs⟩ := policySystem_shape p p' a a' s s' root root'
  exact ⟨hshape, hinputs, numInputs_policySystem p a s root, numWitnesses_policySystem p a s root,
    numConstraints_policySystem p a s root, policySetup_eq_setup seed p a s root,
    inputCount_policySetup seed,
    Chain.step_setVerificationKey_of_accepts hc (length_policySetup_toBytes seed)
      (acceptsKey_policySetup seed)⟩

/-- The sample policy and holder against the default inputs, with the setup of seed 0 stored on
a fresh chain that runs the verifier. -/
theorem policySetup_fits_sample_circuit :
    ({ runtime := .full } : Chain).runtime = .full ∧
      (policySystem Sample.policy Sample.attributes Sample.salts
          (Sample.attributes.commitment Sample.salts)).SameShape
        (policySystem {} {} {} (({} : Attributes).commitment {})) ∧
      (policySystem Sample.policy Sample.attributes Sample.salts
          (Sample.attributes.commitment Sample.salts)).inputs =
        #[1] ++ (Sample.policy.publicInputs (Sample.attributes.commitment Sample.salts)).toArray ∧
      (policySystem Sample.policy Sample.attributes Sample.salts
          (Sample.attributes.commitment Sample.salts)).numInputs = 12 ∧
      (policySystem Sample.policy Sample.attributes Sample.salts
          (Sample.attributes.commitment Sample.salts)).numWitnesses = 1992 ∧
      (policySystem Sample.policy Sample.attributes Sample.salts
          (Sample.attributes.commitment Sample.salts)).numConstraints = 2008 ∧
      policySetup 0 = Groth16.setup (policySystem Sample.policy Sample.attributes Sample.salts
          (Sample.attributes.commitment Sample.salts)) 0 ∧
      (policySetup 0).vk.inputCount = 11 ∧
      ({ runtime := .full } : Chain).step
          (.submit .root (.setVerificationKey (policySetup 0).vk.toBytes)) =
        ({ ({ runtime := .full } : Chain) with
            verifier := { ({ runtime := .full } : Chain).verifier with
              verificationKey := some (policySetup 0).vk.toBytes }
            events := [.verificationKeySet] },
          .dispatched (.ok [.verificationKeySet])) :=
  ⟨rfl, policySetup_fits_every_circuit Sample.policy {} Sample.attributes {} Sample.salts {}
    (Sample.attributes.commitment Sample.salts) (({} : Attributes).commitment {}) 0 rfl⟩

end ZkPolicy
