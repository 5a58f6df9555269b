import ZkPolicy.Ledger.Chain
import ZkPolicy.Policy.Prover

/-!
# The sample chain

A chain set up for trying the verifier: Bob is an issuer and on the allowlist, the allowlist is
required, and the verifying key is the one of the well-known test setup. With it come a sample
policy (age 19 or more, gender 0, country 410 or 840), a holder who meets it (age 23, gender 0,
country 410) with the holder's salts, and a proof of that holder's attributes against the
policy under the test setup.
-/

namespace ZkPolicy

/-- Public signals from a list of words; missing words read as zero. -/
def PublicSignals.ofList (ws : List Bytes32) : PublicSignals :=
  Vector.ofFn fun i => ws.getD i.val (Bytes32.fill 0)

namespace Sample

/-- The sample policy: age 19 or more, gender 0, country 410 or 840. -/
def policy : Policy :=
  { ageCheck := 1, requiredAge := 19, genderCheck := 1, requiredGender := 0,
    nationalityCheck := 1, allowedCountries := #v[410, 840, 0, 0, 0] }

/-- The sample holder's attributes. -/
def attributes : Attributes := { age := 23, gender := 0, nationality := 410 }

/-- The sample holder's salts. -/
def salts : Salts := { age := Fr.ofWord 1111, gender := Fr.ofWord 2222, nationality := Fr.ofWord 3333 }

/-- The verifying key of the test setup, as bytes. -/
def verificationKey : List UInt8 := testSetup.vk.toBytes

/-- The proof wire form of an empty proof, which no check accepts. -/
def emptyProof : Groth16.Proof.Wire :=
  let z := Bytes32.fill 0
  ⟨⟨z, z⟩, ⟨z, z, z, z⟩, ⟨z, z⟩⟩

/-- The sample holder's proof and public signals. -/
def holderPresentation : Groth16.Proof.Wire × PublicSignals :=
  match proveWith testSetup policy attributes salts (Generator.ofSeed 0) with
  | .ok (proof, xs) => (proof.toWire, PublicSignals.ofList (xs.map Residue.toBytes32))
  | .error _ => (emptyProof, PublicSignals.ofList [])

/-- Whether the sample holder's proof verifies under the test key. -/
def holderProofValid : Bool :=
  Presentation.verify verificationKey holderPresentation.1 holderPresentation.2.toList

/-- The registry of the sample chain: Bob issues. -/
def registryGenesis : Chain.RegistryGenesis := { issuers := [Keyring.bob] }

/-- The verifier of the sample chain: Bob is allowlisted, under the test key. -/
def verifierGenesis : Chain.VerifierGenesis :=
  { requireIssuerAllowlist := true, allowedIssuers := [Keyring.bob],
    verificationKey := some verificationKey }

end Sample

end ZkPolicy
