import ZkPolicy.Groth16.Keys
import ZkPolicy.Bn254.Pairing

/-!
# Groth16 verification

A proof `(A, B, C)` of public inputs `x₁ … xₙ` is accepted by a verifying key exactly when

  `e(A, B) = e(α, β) · e(X, γ) · e(C, δ)`,  with `X = γabc₀ + Σ xᵢ · γabcᵢ`,

checked as one product of four pairings equal to one. A list of inputs whose length is not the
key's input count is refused.
-/

namespace ZkPolicy

namespace Groth16

namespace VerifyingKey

/-- The input point `X = γabc₀ + Σ xᵢ · γabcᵢ`, or `none` if the inputs do not number one less
than the key's points. -/
def prepareInputs (vk : VerifyingKey) (xs : List Fr) : Option G1 :=
  match vk.gammaAbc with
  | [] => none
  | g :: gs =>
    if xs.length = gs.length then
      some ((xs.zip gs).foldl (fun acc (x, p) => acc.add (p.smul x.val)) g)
    else none

end VerifyingKey

/-- **Verification.** The pairing equation for the proof and inputs under the key. -/
def verify (vk : VerifyingKey) (proof : Proof) (xs : List Fr) : Bool :=
  match vk.prepareInputs xs with
  | none => false
  | some x =>
    Pairing.pairingProduct
      [(proof.a, proof.b), (x, vk.gamma.neg), (proof.c, vk.delta.neg), (vk.alpha.neg, vk.beta)] = 1

end Groth16

end ZkPolicy
