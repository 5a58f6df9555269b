import ZkPolicy.Ledger.Credential

/-!
# Events and origins

What a call reports and who makes it. The registry reports minted and revoked credentials and
changes to who may issue; the verifier reports accepted presentations and changes to its
settings. A call comes from an account that signed it, from the chain's root authority, or
from nobody.
-/

namespace ZkPolicy

/-- An event deposited by a successful call. -/
inductive Event where
  /-- A credential was created under the next free id. -/
  | credentialMinted (id : UInt64) (owner issuer : AccountId) (expiry : UInt64)
      (commitmentRoot : Bytes32)
  /-- A credential was revoked by its issuer. -/
  | credentialRevoked (id : UInt64) (issuer : AccountId)
  /-- Open issuing (anyone may mint) was switched. -/
  | openIssuerModeSet (isOpen : Bool)
  /-- An account was added to or removed from the registry's issuers. -/
  | issuerSet (issuer : AccountId) (allowed : Bool)
  /-- A holder presented a credential with a valid proof. -/
  | verified (who : AccountId) (id : UInt64) (policyHash nullifier : Bytes32)
  /-- Whether the verifier insists on allowlisted issuers was switched. -/
  | requireIssuerAllowlistSet (required : Bool)
  /-- An issuer was added to or removed from the verifier's allowlist. -/
  | issuerAllowedSet (issuer : AccountId) (allowed : Bool)
  /-- A new verifying key was stored. -/
  | verificationKeySet
deriving DecidableEq

/-- Who makes a call. -/
inductive Origin where
  | signed (who : AccountId)
  | root
  | none
deriving DecidableEq

namespace Origin

/-- The account that signed the call, if one did. -/
def signer? : Origin → Option AccountId
  | signed who => some who
  | _ => Option.none

/-- Whether the origin may change settings: the root authority or the one admin account. -/
def isAdmin (admin : AccountId) : Origin → Bool
  | signed who => who = admin
  | root => true
  | none => false

end Origin

end ZkPolicy
