import ZkPolicy.Ledger.Sample

/-!
# Benchmarks

Each call of the chain has a benchmark: a set-up that writes storage directly, the call itself
from a suitable origin, and a check afterwards. A benchmark runs on a copy of the chain, so it
never changes the chain it starts from.

A benchmark stops with the name of the call's error when the call fails, and panics when its
set-up cannot mint the credential it needs or when the check afterwards fails. Only the mint
benchmark's check can fail: it expects the fresh credential under id 1, which holds only on a
registry that had no credentials. The other checks hold whenever the call succeeds.

The benchmarks use accounts derived from a name and two numbers (`AccountId.derive`), the
nullifier of 32 bytes 42 and the policy hash of 32 bytes 1.
-/

namespace ZkPolicy

/-- Why a benchmark does not finish. -/
inductive BenchmarkError where
  /-- The benchmark stopped, for the reason given. -/
  | stop (reason : String)
  /-- The set-up or the check panicked, with the message given. -/
  | panic (message : String)
deriving DecidableEq

/-- The position of a part among the parts of the chain. -/
def Pallet.index : Pallet → Nat
  | .registry => 2
  | .verifier => 3

/-- The reason a failed call gives. -/
def DispatchError.reason : DispatchError → String
  | .badOrigin => "Bad origin"
  | .registry e => e.name
  | .verifier e => e.name

/-- The text of a part's error, as a panic shows it. -/
def moduleErrorText (p : Pallet) (index : Nat) (name : String) : String :=
  "Module(ModuleError \x7b index: " ++ toString p.index ++ ", error: [" ++ toString index ++
    ", 0, 0, 0], message: Some(\"" ++ name ++ "\") \x7d)"

/-- The text of a failed call's error, as a panic shows it. -/
def DispatchError.describe : DispatchError → String
  | .badOrigin => "BadOrigin"
  | .registry e => moduleErrorText .registry e.index e.name
  | .verifier e => moduleErrorText .verifier e.index e.name

namespace Benchmark

/-- Runs a call of the benchmark; a failure stops the benchmark. -/
def call (c : Chain) (o : Origin) (x : Call) : Except BenchmarkError Chain :=
  match c.execute o x with
  | .ok (c', _) => .ok c'
  | .error e => .error (.stop e.reason)

/-- Runs a call of the set-up; a failure panics. -/
def prepare (c : Chain) (o : Origin) (x : Call) : Except BenchmarkError Chain :=
  match c.execute o x with
  | .ok (c', _) => .ok c'
  | .error e => .error (.panic
      ("called `Result::unwrap()` on an `Err` value: " ++ e.describe))

/-- An optional account as a check shows it. -/
def describeAccount? : Option AccountId → String
  | some a => "Some(" ++ AccountId.display a ++ ")"
  | none => "None"

/-- The check that two optional accounts are equal. -/
def expectAccount (left right : Option AccountId) : Except BenchmarkError Unit :=
  if left = right then .ok ()
  else .error (.panic ("assertion `left == right` failed\n  left: " ++ describeAccount? left ++
    "\n right: " ++ describeAccount? right))

/-- The maximal expiry: a credential that never expires. -/
def never : UInt64 := 0xFFFFFFFFFFFFFFFF

/-- Adds an account to the registry's issuers, directly. -/
def addIssuer (c : Chain) (a : AccountId) : Chain :=
  { c with registry := { c.registry with issuers := c.registry.issuers.insert a () } }

/-- Presenting the sample holder's proof on a credential minted for the occasion. -/
def verifyAndEmit (c : Chain) : Except BenchmarkError Unit := do
  let owner := AccountId.derive "owner" 1 1
  let (proof, ss) := Sample.holderPresentation
  let c := { c with registry := { c.registry with openIssuerMode := true } }
  let c ← prepare c (.signed owner) (.mint owner never (PublicSignals.root ss))
  let id := c.registry.count
  let issuer := ((c.registry.credential? id).map (·.issuer)).getD owner
  let c := { c with verifier := { c.verifier with
    requireIssuerAllowlist := some true
    allowedIssuers := c.verifier.allowedIssuers.insert issuer ()
    verificationKey := some Sample.verificationKey } }
  let _ ← call c (.signed owner) (.verifyAndEmit id ss proof (Bytes32.fill 1) (Bytes32.fill 42))
  pure ()

/-- The benchmarks of the verifier, in order. -/
def verifierBenchmarks : List (String × (Chain → Except BenchmarkError Unit)) :=
  [("verify_and_emit", verifyAndEmit),
   ("set_require_issuer_allowlist", fun c => do
      let _ ← call c .root (.setRequireIssuerAllowlist false)),
   ("set_issuer_allowed", fun c => do
      let _ ← call c .root (.setIssuerAllowed (AccountId.derive "issuer" 1 1) true)),
   ("set_verification_key", fun c => do
      let _ ← call c .root (.setVerificationKey Sample.verificationKey))]

/-- Minting by a fresh issuer; the check expects the credential under id 1. -/
def mint (c : Chain) : Except BenchmarkError Unit := do
  let issuer := AccountId.derive "issuer" 1 1
  let owner := AccountId.derive "owner" 2 2
  let c ← call (addIssuer c issuer) (.signed issuer) (.mint owner never (Bytes32.fill 7))
  expectAccount ((c.registry.credential? 1).map (·.owner)) (some owner)

/-- Revoking a credential that a fresh issuer mints in the set-up. -/
def revoke (c : Chain) : Except BenchmarkError Unit := do
  let issuer := AccountId.derive "issuer" 1 1
  let owner := AccountId.derive "owner" 2 2
  let c ← prepare (addIssuer c issuer) (.signed issuer) (.mint owner never (Bytes32.fill 1))
  let _ ← call c (.signed issuer) (.revoke c.registry.count)
  pure ()

/-- The benchmarks of the registry, in order. -/
def registryBenchmarks : List (String × (Chain → Except BenchmarkError Unit)) :=
  [("mint", mint),
   ("revoke", revoke),
   ("set_open_issuer_mode", fun c => do
      let _ ← call c .root (.setOpenIssuerMode true)),
   ("set_issuer", fun c => do
      let _ ← call c .root (.setIssuer (AccountId.derive "issuer" 1 1) true))]

/-- The benchmarks of a part. -/
def ofPallet : Pallet → List (String × (Chain → Except BenchmarkError Unit))
  | .registry => registryBenchmarks
  | .verifier => verifierBenchmarks

/-- The names of a part's benchmarks, in order. -/
def names (p : Pallet) : List String := (ofPallet p).map (·.1)

/-- **Running a benchmark** by name on a copy of the chain. -/
def run (c : Chain) (p : Pallet) (name : String) : Except BenchmarkError Unit :=
  match (ofPallet p).find? (·.1 = name) with
  | some (_, b) => b c
  | none => .error (.stop "Could not find extrinsic.")

end Benchmark

/-- The text of a benchmark error: a stop shows its reason quoted. -/
def BenchmarkError.message : BenchmarkError → String
  | .stop reason => "Stop(\"" ++ reason ++ "\")"
  | .panic message => message

end ZkPolicy
