import ZkPolicy.Ledger.Event
import ZkPolicy.Ledger.Table

/-!
# The credential registry

Issuers mint credentials for owners under consecutive ids 1, 2, 3, …, and may later revoke what
they minted. Only listed issuers may mint, unless open issuing is on; the id counter never
wraps, so the last id is `2⁶⁴ - 1` and a mint after it is refused.

Each call either fails with a `RegistryError` and changes nothing, or gives the new registry
with the events it deposits. Who may call is checked before: minting and revoking need a
signer, the two settings need the admin.

* `get?_mint`: a mint stores the fresh credential under the new count and changes no other id.
* `revoke` of a credential that is already revoked succeeds and deposits nothing.
-/

namespace ZkPolicy

/-- Why the registry refuses a call. -/
inductive RegistryError where
  /-- The signer is not an issuer and issuing is not open. -/
  | issuerNotAuthorized
  /-- No credential has the id. -/
  | credentialNotFound
  /-- The signer did not issue the credential. -/
  | notIssuer
  /-- Every id has been used. -/
  | credentialIndexOverflow
deriving DecidableEq

namespace RegistryError

/-- The error's name. -/
def name : RegistryError → String
  | issuerNotAuthorized => "IssuerNotAuthorized"
  | credentialNotFound => "CredentialNotFound"
  | notIssuer => "NotIssuer"
  | credentialIndexOverflow => "CredentialIndexOverflow"

/-- The error's position in the registry's list of errors. -/
def index : RegistryError → Nat
  | issuerNotAuthorized => 0
  | credentialNotFound => 1
  | notIssuer => 2
  | credentialIndexOverflow => 3

end RegistryError

/-- The registry's storage. -/
structure Registry where
  /-- The last id used; 0 before the first mint. -/
  count : UInt64 := 0
  credentials : Table UInt64 Credential := {}
  issuers : Table AccountId Unit := {}
  /-- When on, every signer may mint. -/
  openIssuerMode : Bool := false

namespace Registry

/-- The id after `count`, unless `count` is the last one. -/
def nextId? (count : UInt64) : Option UInt64 :=
  if count.toNat + 1 < Nat.pow 2 64 then some (count + 1) else none

/-- The credential stored under an id. -/
def credential? (r : Registry) (id : UInt64) : Option Credential := r.credentials.get? id

/-- Whether an account is a listed issuer. -/
def isIssuer (r : Registry) (who : AccountId) : Bool := r.issuers.contains who

/-- May the account mint? -/
def mayMint (r : Registry) (issuer : AccountId) : Bool := r.openIssuerMode || r.isIssuer issuer

/-- **Minting**: a fresh credential under the next id, which becomes the count. -/
def mint (r : Registry) (issuer owner : AccountId) (expiry : UInt64) (root : Bytes32) :
    Except RegistryError (Registry × Event) :=
  if r.mayMint issuer then
    match nextId? r.count with
    | some id =>
      .ok ({ r with count := id,
                    credentials := r.credentials.insert id (.issue owner issuer expiry root) },
           .credentialMinted id owner issuer expiry root)
    | none => .error .credentialIndexOverflow
  else .error .issuerNotAuthorized

/-- **Revoking**: only the issuer may revoke, and a second revocation changes nothing. -/
def revoke (r : Registry) (sender : AccountId) (id : UInt64) :
    Except RegistryError (Registry × List Event) :=
  match r.credential? id with
  | none => .error .credentialNotFound
  | some c =>
    if c.issuer ≠ sender then .error .notIssuer
    else if c.revoked then .ok (r, [])
    else .ok ({ r with credentials := r.credentials.insert id { c with revoked := true } },
              [.credentialRevoked id sender])

/-- Switches open issuing. -/
def setOpenIssuerMode (r : Registry) (isOpen : Bool) : Registry × Event :=
  ({ r with openIssuerMode := isOpen }, .openIssuerModeSet isOpen)

/-- Adds an account to the issuers, or removes it. -/
def setIssuer (r : Registry) (issuer : AccountId) (allowed : Bool) : Registry × Event :=
  ({ r with issuers := if allowed then r.issuers.insert issuer () else r.issuers.erase issuer },
   .issuerSet issuer allowed)

theorem get?_mint {r r' : Registry} {issuer owner : AccountId} {expiry : UInt64}
    {root : Bytes32} {e : Event} (h : r.mint issuer owner expiry root = .ok (r', e)) (id : UInt64) :
    r'.credential? id =
      if id = r'.count then some (.issue owner issuer expiry root) else r.credential? id := by
  unfold mint at h
  split at h
  · split at h
    · cases h; simp [credential?, Table.get?_insert]
    · cases h
  · cases h

end Registry

end ZkPolicy
