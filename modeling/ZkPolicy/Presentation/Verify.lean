import ZkPolicy.Groth16.Verify
import ZkPolicy.Policy.Signals

/-!
# Checking a presented policy proof

What the chain accepts: a verifying key as bytes, a proof in wire form and the eleven public
signals as words. Each must decode: the key with all its points valid, the proof with all three
points valid (the point at infinity has no wire form), and every signal canonical. The key must
expect exactly as many inputs as there are signals, and then the Groth16 equation decides.
-/

namespace ZkPolicy

namespace Presentation

open Groth16

/-- **The on-chain check** of a presented proof. -/
def verify (vkBytes : List UInt8) (proof : Proof.Wire) (signals : List Bytes32) : Bool :=
  match VerifyingKey.ofBytes? vkBytes, Proof.ofWire? proof, decodeSignals signals with
  | some vk, some p, some xs => vk.inputCount = xs.length && Groth16.verify vk p xs
  | _, _, _ => false

end Presentation

end ZkPolicy
