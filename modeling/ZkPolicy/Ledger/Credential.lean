import ZkPolicy.Encoding.Bytes

/-!
# Credentials

A credential binds an owner to a commitment root, as attested by an issuer, until an expiry
time. It is created unrevoked; revocation is a flag the issuer may set later.
-/

namespace ZkPolicy

/-- An account: a 32-byte public key. -/
abbrev AccountId := Bytes32

/-- A credential as the registry stores it. -/
structure Credential where
  owner : AccountId
  issuer : AccountId
  /-- The first moment (in milliseconds) at which the credential no longer holds. -/
  expiry : UInt64
  commitmentRoot : Bytes32
  revoked : Bool
deriving DecidableEq

namespace Credential

/-- A fresh credential: not revoked. -/
def issue (owner issuer : AccountId) (expiry : UInt64) (root : Bytes32) : Credential :=
  { owner, issuer, expiry, commitmentRoot := root, revoked := false }

/-- A credential has expired from its expiry time on. -/
def isExpiredAt (c : Credential) (now : UInt64) : Bool := c.expiry ≤ now

end Credential

end ZkPolicy
