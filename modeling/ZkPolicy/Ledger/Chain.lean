import ZkPolicy.Ledger.Registry
import ZkPolicy.Ledger.Verifier
import ZkPolicy.Ledger.Account

/-!
# The chain

A chain runs the credential registry, and in its full form also the presentation verifier that
reads the registry. It keeps a clock (milliseconds) and a log of events.

A call is checked for its origin first: minting, revoking and presenting need a signer, and the
settings need the admin (the development account Alice, or the root authority). A call that fails
changes nothing; one that succeeds appends its events to the log, which is emptied before each
call that is submitted. A verifying key longer than `maxKeyLength` bytes never reaches the
verifier: such a call cannot even be formed.

Building the chain from its genesis settings fails on a verifying key that is too long or that
the verifier would not accept.
-/

namespace ZkPolicy

/-- The two parts a chain may run. -/
inductive Pallet where
  | registry
  | verifier
deriving DecidableEq

/-- What a chain runs: the registry alone, or the registry with the verifier. -/
inductive Runtime where
  | registryOnly
  | full
deriving DecidableEq

/-- Whether a runtime runs a part. -/
def Runtime.hosts : Runtime → Pallet → Bool
  | .full, _ => true
  | .registryOnly, p => p = .registry

/-- The account that may change settings, besides the root authority. -/
def admin : AccountId := Keyring.alice

/-- The longest verifying key a call may carry. -/
def maxKeyLength : Nat := 1024

/-- A call to the chain. -/
inductive Call where
  | mint (owner : AccountId) (expiry : UInt64) (commitmentRoot : Bytes32)
  | revoke (id : UInt64)
  | setOpenIssuerMode (isOpen : Bool)
  | setIssuer (issuer : AccountId) (allowed : Bool)
  | verifyAndEmit (id : UInt64) (signals : PublicSignals) (proof : Groth16.Proof.Wire)
      (policyHash nullifier : Bytes32)
  | setRequireIssuerAllowlist (required : Bool)
  | setIssuerAllowed (issuer : AccountId) (allowed : Bool)
  | setVerificationKey (key : List UInt8)

/-- The part a call is addressed to. -/
def Call.pallet : Call → Pallet
  | .mint .. | .revoke .. | .setOpenIssuerMode .. | .setIssuer .. => .registry
  | _ => .verifier

/-- Whether a call's arguments are within their bounds. -/
def Call.withinBounds : Call → Bool
  | .setVerificationKey key => key.length ≤ maxKeyLength
  | _ => true

/-- Why a call fails. -/
inductive DispatchError where
  /-- The origin may not make the call. -/
  | badOrigin
  | registry (e : RegistryError)
  | verifier (e : VerifierError)
deriving DecidableEq

/-- The error's name. -/
def DispatchError.name : DispatchError → String
  | .badOrigin => "BadOrigin"
  | .registry e => e.name
  | .verifier e => e.name

/-- The chain's state. -/
structure Chain where
  runtime : Runtime
  registry : Registry := {}
  verifier : Verifier := {}
  /-- The time, in milliseconds. -/
  now : UInt64 := 0
  /-- The events deposited since the log was last emptied, oldest first. -/
  events : List Event := []

namespace Chain

/-- The signer of a call that needs one. -/
def signer (o : Origin) : Except DispatchError AccountId :=
  match o.signer? with
  | some who => .ok who
  | none => .error .badOrigin

/-- Checks that the origin is the admin. -/
def ensureAdmin (o : Origin) : Except DispatchError Unit :=
  if o.isAdmin admin then .ok () else .error .badOrigin

/-- **Executing a call**: the new state and the events the call deposits. -/
def execute (c : Chain) (o : Origin) : Call → Except DispatchError (Chain × List Event)
  | .mint owner expiry root => do
    let issuer ← signer o
    let (r, e) ← (c.registry.mint issuer owner expiry root).mapError .registry
    pure ({ c with registry := r }, [e])
  | .revoke id => do
    let sender ← signer o
    let (r, es) ← (c.registry.revoke sender id).mapError .registry
    pure ({ c with registry := r }, es)
  | .setOpenIssuerMode isOpen => do
    ensureAdmin o
    let (r, e) := c.registry.setOpenIssuerMode isOpen
    pure ({ c with registry := r }, [e])
  | .setIssuer issuer allowed => do
    ensureAdmin o
    let (r, e) := c.registry.setIssuer issuer allowed
    pure ({ c with registry := r }, [e])
  | .verifyAndEmit id ss proof policyHash nullifier => do
    let who ← signer o
    let (v, e) ← (c.verifier.present c.registry.credential? c.now who id ss proof policyHash
      nullifier).mapError .verifier
    pure ({ c with verifier := v }, [e])
  | .setRequireIssuerAllowlist required => do
    ensureAdmin o
    let (v, e) := c.verifier.setRequireIssuerAllowlist required
    pure ({ c with verifier := v }, [e])
  | .setIssuerAllowed issuer allowed => do
    ensureAdmin o
    let (v, e) := c.verifier.setIssuerAllowed issuer allowed
    pure ({ c with verifier := v }, [e])
  | .setVerificationKey key => do
    ensureAdmin o
    let (v, e) ← (c.verifier.setVerificationKey key).mapError .verifier
    pure ({ c with verifier := v }, [e])

/-- **Dispatching a call**: the call's events are appended to the log; a failed call changes
nothing. -/
def dispatch (c : Chain) (o : Origin) (call : Call) : Except DispatchError Chain :=
  match c.execute o call with
  | .ok (c', es) => .ok { c' with events := c.events ++ es }
  | .error e => .error e

/-- The chain with an empty event log, as at the start of each submitted call. -/
def clearEvents (c : Chain) : Chain := { c with events := [] }

/-- The settings of the registry at genesis. -/
structure RegistryGenesis where
  openIssuerMode : Bool := false
  issuers : List AccountId := []

/-- The settings of the verifier at genesis. -/
structure VerifierGenesis where
  requireIssuerAllowlist : Bool := true
  allowedIssuers : List AccountId := []
  verificationKey : Option (List UInt8) := none

/-- Why a chain cannot be built. -/
inductive GenesisError where
  | keyTooLong (key : List UInt8)
  | invalidKey
deriving DecidableEq

/-- The list of byte values, as `[b0, b1, …]` in decimal. -/
def byteList (bytes : List UInt8) : String :=
  "[" ++ ", ".intercalate (bytes.map fun b => toString b.toNat) ++ "]"

/-- The message of a failed genesis. -/
def GenesisError.message : GenesisError → String
  | .keyTooLong key => "genesis verification key too long: " ++ byteList key
  | .invalidKey => "invalid genesis verification key"

/-- The registry's genesis storage. -/
def RegistryGenesis.build (g : RegistryGenesis) : Registry :=
  { openIssuerMode := g.openIssuerMode
    issuers := g.issuers.foldl (fun t a => t.insert a ()) {} }

/-- The verifier's genesis storage, if its key is acceptable. -/
def VerifierGenesis.build (g : VerifierGenesis) : Except GenesisError Verifier := do
  let key ← match g.verificationKey with
    | none => pure none
    | some key =>
      if key.length > maxKeyLength then throw (.keyTooLong key)
      else if !Verifier.acceptsKey key then throw .invalidKey
      else pure (some key)
  pure { requireIssuerAllowlist := some g.requireIssuerAllowlist
         allowedIssuers := g.allowedIssuers.foldl (fun t a => t.insert a ()) {}
         verificationKey := key }

/-- **The chain at genesis**. The verifier's settings count only where it runs. -/
def genesis (rt : Runtime) (rg : RegistryGenesis) (vg : VerifierGenesis) :
    Except GenesisError Chain :=
  match rt with
  | .registryOnly => pure { runtime := rt, registry := rg.build }
  | .full => do pure { runtime := rt, registry := rg.build, verifier := ← vg.build }

end Chain

end ZkPolicy
