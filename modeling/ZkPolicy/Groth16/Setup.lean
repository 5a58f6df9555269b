import ZkPolicy.Groth16.Qap
import ZkPolicy.Groth16.Keys
import ZkPolicy.Random.Sample

/-!
# The seeded Groth16 setup

A setup draws, from a seeded generator and in this order, the secret scalars `α, β, γ, δ`, a
generator `g₁` of the first group, a generator `g₂` of the second, and a point `τ` outside the
evaluation domain. From the QAP of the constraint system at `τ` it publishes the verifying key

  `[α]g₁, [β]g₂, [γ]g₂, [δ]g₂` and `[(β aᵢ(τ) + α bᵢ(τ) + cᵢ(τ)) / γ]g₁` per instance variable.

Every element of the published proving key is likewise a known scalar times `g₁` or `g₂`; the
setup keeps those scalars (the trapdoor and the QAP values) rather than the points, and the
prover works in the exponent (`Groth16/Prove`). `Setup.provingKeyLength` is the length of the
published proving key, which depends only on the sizes of the system.
-/

namespace ZkPolicy

namespace Groth16

/-- The secret scalars of a setup and its two generators. -/
structure Trapdoor where
  alpha : Fr
  beta : Fr
  gamma : Fr
  delta : Fr
  tau : Fr
  g1 : G1
  g2 : G2

/-- The result of a setup: the trapdoor, the QAP at `τ`, and the verifying key. -/
structure Setup where
  trapdoor : Trapdoor
  qap : QapAt
  domain : Domain
  numInputs : Nat
  numWitnesses : Nat
  vk : VerifyingKey

/-- A point `τ` outside the domain, drawn within `tries` draws. -/
def sampleOutside (d : Domain) (g : Generator) : Nat → Fr × Generator
  | 0 => (0, g)
  | tries + 1 =>
    let (τ, g) := Fr.sample g
    if d.vanishing τ = 0 then sampleOutside d g tries else (τ, g)

/-- Draws the trapdoor for a domain. -/
def Trapdoor.sample (d : Domain) (g : Generator) : Trapdoor × Generator :=
  let alpha := Fr.sample g
  let beta := Fr.sample alpha.2
  let gamma := Fr.sample beta.2
  let delta := Fr.sample gamma.2
  let g1 := G1.sample delta.2
  let g2 := G2.sample g1.2
  let tau := sampleOutside d g2.2 128
  (⟨alpha.1, beta.1, gamma.1, delta.1, tau.1, g1.1, g2.1⟩, tau.2)

/-- The combination `β aₖ + α bₖ + cₖ` of variable `k`. -/
def Trapdoor.combined (t : Trapdoor) (q : QapAt) (k : Nat) : Fr :=
  t.beta * q.a.getD k 0 + t.alpha * q.b.getD k 0 + q.c.getD k 0

/-- **Setup** for a constraint system (its shape; the assignment is not read), from a seed. -/
def setup (sys : Circuit.System) (seed : UInt64) : Setup :=
  let domain := Domain.ofMinSize (sys.numConstraints + sys.numInputs)
  let t := (Trapdoor.sample domain (Generator.ofSeed seed)).1
  let qap := qapAt sys (domain.lagrangeAt t.tau)
  let gammaInv := t.gamma⁻¹
  let vk : VerifyingKey :=
    { alpha := t.g1.smul t.alpha.val, beta := t.g2.smul t.beta.val
      gamma := t.g2.smul t.gamma.val, delta := t.g2.smul t.delta.val
      gammaAbc := (List.range sys.numInputs).map fun i =>
        t.g1.smul (t.combined qap i * gammaInv).val }
  ⟨t, qap, domain, sys.numInputs, sys.numWitnesses, vk⟩

/-- The length of the published proving key: the verifying key, `[β]g₁`, `[δ]g₁`, then the
length-prefixed lists of `aₖ(τ)`, `bₖ(τ)` (in both groups), the `n - 1` powers of `τ` for the
quotient, and the witness combinations. -/
def Setup.provingKeyLength (s : Setup) : Nat :=
  let vars := s.numInputs + s.numWitnesses
  s.vk.toBytes.length + 32 + 32 + (8 + 32 * vars) + (8 + 32 * vars) + (8 + 64 * vars) +
    (8 + 32 * (s.domain.size - 1)) + (8 + 32 * s.numWitnesses)

/-- A published proving key, as read from bytes. -/
structure ProvingKey where
  vk : VerifyingKey
  betaG1 : G1
  deltaG1 : G1
  aQuery : List G1
  bG1Query : List G1
  bG2Query : List G2
  hQuery : List G1
  lQuery : List G1

/-- Reads a published proving key, validating every point; bytes after it are ignored. -/
def ProvingKey.ofBytes? (bytes : List UInt8) : Option ProvingKey := do
  let (vk, bytes) ← VerifyingKey.read? bytes
  let (betaG1, bytes) ← G1.readCompressed? bytes
  let (deltaG1, bytes) ← G1.readCompressed? bytes
  let (aQuery, bytes) ← readList? G1.readCompressed? bytes
  let (bG1Query, bytes) ← readList? G1.readCompressed? bytes
  let (bG2Query, bytes) ← readList? G2.readCompressed? bytes
  let (hQuery, bytes) ← readList? G1.readCompressed? bytes
  let (lQuery, _) ← readList? G1.readCompressed? bytes
  pure ⟨vk, betaG1, deltaG1, aQuery, bG1Query, bG2Query, hQuery, lQuery⟩

end Groth16

end ZkPolicy
