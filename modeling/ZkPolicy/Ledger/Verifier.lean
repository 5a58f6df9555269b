import ZkPolicy.Ledger.Event
import ZkPolicy.Ledger.Table
import ZkPolicy.Presentation.Verify

/-!
# The presentation verifier

A holder presents a credential of the registry together with a proof about the attributes
behind its commitment root. The verifier accepts a presentation only if it passes seven gates,
in this order, and reports the first that fails:

1. the caller owns the credential (an unknown id fails here too);
2. if the allowlist is required, the credential's issuer is on it;
3. the credential has not expired;
4. it is not revoked;
5. the root among the public signals is the credential's commitment root;
6. the nullifier has not been used;
7. the proof verifies under the stored key (no stored key, no valid proof).

An accepted presentation uses up its nullifier, so no nullifier is accepted twice.

The settings are changed by the admin: whether the allowlist is required, who is on it, and the
verifying key, which must decode and expect exactly the eleven public signals.
-/

namespace ZkPolicy

/-- The eleven public signals of a presentation, as words. -/
abbrev PublicSignals := Vector Bytes32 Signal.count

/-- The commitment root among the public signals. -/
def PublicSignals.root (ss : PublicSignals) : Bytes32 :=
  ss.get ⟨Signal.root, by decide⟩

/-- Why the verifier refuses a call. -/
inductive VerifierError where
  | notOwner
  | issuerNotAllowed
  | expired
  | revoked
  | rootMismatch
  | nullifierUsed
  | invalidProof
  | invalidVerificationKey
deriving DecidableEq

/-- The error's name. -/
def VerifierError.name : VerifierError → String
  | notOwner => "NotOwner"
  | issuerNotAllowed => "IssuerNotAllowed"
  | expired => "Expired"
  | revoked => "Revoked"
  | rootMismatch => "RootMismatch"
  | nullifierUsed => "NullifierUsed"
  | invalidProof => "InvalidProof"
  | invalidVerificationKey => "InvalidVerificationKey"

/-- The error's position in the verifier's list of errors. -/
def VerifierError.index : VerifierError → Nat
  | notOwner => 0
  | issuerNotAllowed => 1
  | expired => 2
  | revoked => 3
  | rootMismatch => 4
  | nullifierUsed => 5
  | invalidProof => 6
  | invalidVerificationKey => 7

/-- The verifier's storage. -/
structure Verifier where
  /-- The stored flag; when nothing is stored the allowlist is required. -/
  requireIssuerAllowlist : Option Bool := none
  allowedIssuers : Table AccountId Unit := {}
  usedNullifiers : Table Bytes32 Unit := {}
  verificationKey : Option (List UInt8) := none

namespace Verifier

/-- Whether presentations need an allowlisted issuer. -/
def allowlistRequired (v : Verifier) : Bool := v.requireIssuerAllowlist.getD true

/-- Whether an account is on the allowlist. -/
def isIssuerAllowed (v : Verifier) (who : AccountId) : Bool := v.allowedIssuers.contains who

/-- Whether a nullifier has been used. -/
def isNullifierUsed (v : Verifier) (n : Bytes32) : Bool := v.usedNullifiers.contains n

/-- A key the verifier may store: it decodes and expects one input per public signal. -/
def acceptsKey (bytes : List UInt8) : Bool :=
  match Groth16.VerifyingKey.ofBytes? bytes with
  | some vk => vk.inputCount = Signal.count
  | none => false

/-- Whether the proof verifies under the stored key. -/
def proofHolds (v : Verifier) (proof : Groth16.Proof.Wire) (ss : PublicSignals) : Bool :=
  match v.verificationKey with
  | some key => Presentation.verify key proof ss.toList
  | none => false

/-- The first gate a presentation fails, if any. `credential?` looks up the registry. -/
def failedGate? (v : Verifier) (credential? : UInt64 → Option Credential) (now : UInt64)
    (who : AccountId) (id : UInt64) (ss : PublicSignals) (proof : Groth16.Proof.Wire)
    (nullifier : Bytes32) : Option VerifierError :=
  match credential? id with
  | none => some .notOwner
  | some c =>
    if c.owner ≠ who then some .notOwner
    else if v.allowlistRequired && !v.isIssuerAllowed c.issuer then some .issuerNotAllowed
    else if c.isExpiredAt now then some .expired
    else if c.revoked then some .revoked
    else if PublicSignals.root ss ≠ c.commitmentRoot then some .rootMismatch
    else if v.isNullifierUsed nullifier then some .nullifierUsed
    else if !v.proofHolds proof ss then some .invalidProof
    else none

/-- Uses up a nullifier. -/
def useNullifier (v : Verifier) (n : Bytes32) : Verifier :=
  { v with usedNullifiers := v.usedNullifiers.insert n () }

/-- **Presenting a credential**: refused at the first failed gate, otherwise the nullifier is
used up. -/
def present (v : Verifier) (credential? : UInt64 → Option Credential) (now : UInt64)
    (who : AccountId) (id : UInt64) (ss : PublicSignals) (proof : Groth16.Proof.Wire)
    (policyHash nullifier : Bytes32) : Except VerifierError (Verifier × Event) :=
  match v.failedGate? credential? now who id ss proof nullifier with
  | some e => .error e
  | none => .ok (v.useNullifier nullifier, .verified who id policyHash nullifier)

/-- Switches whether the allowlist is required. -/
def setRequireIssuerAllowlist (v : Verifier) (required : Bool) : Verifier × Event :=
  ({ v with requireIssuerAllowlist := some required }, .requireIssuerAllowlistSet required)

/-- Adds an issuer to the allowlist, or removes it. -/
def setIssuerAllowed (v : Verifier) (issuer : AccountId) (allowed : Bool) : Verifier × Event :=
  ({ v with allowedIssuers :=
      if allowed then v.allowedIssuers.insert issuer () else v.allowedIssuers.erase issuer },
   .issuerAllowedSet issuer allowed)

/-- Stores a new verifying key, if the verifier accepts it. -/
def setVerificationKey (v : Verifier) (key : List UInt8) : Except VerifierError (Verifier × Event) :=
  if acceptsKey key then .ok ({ v with verificationKey := some key }, .verificationKeySet)
  else .error .invalidVerificationKey

@[simp] theorem isNullifierUsed_useNullifier (v : Verifier) (n n' : Bytes32) :
    (v.useNullifier n).isNullifierUsed n' = (n' = n || v.isNullifierUsed n') := by
  simp [isNullifierUsed, useNullifier, Table.contains_insert]

end Verifier

end ZkPolicy
