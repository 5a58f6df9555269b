import ZkPolicy.Ledger.Benchmark

/-!
# Scenarios

A scenario drives a chain through a list of steps and answers each one. A step submits a call,
writes storage directly (the clock, the id counter, the stored key or allowlist flag), runs a
benchmark, or asks a question about the state.

Steps addressed to a part that the chain does not run are not served. A call whose arguments are
out of bounds is refused before it reaches the chain. A benchmark leaves the chain as it was.
-/

namespace ZkPolicy

/-- A question about the chain. -/
inductive Query where
  | credential (id : UInt64)
  | registryView (id : UInt64)
  | credentialCount
  | openIssuerMode
  | isIssuer (who : AccountId)
  | requireIssuerAllowlist
  | isIssuerAllowed (who : AccountId)
  | isNullifierUsed (nullifier : Bytes32)
  | verificationKey
  | now
  | lastEvent
  | eventCount
  | sampleFixtures
  | sampleHolderProof

/-- One step of a scenario. -/
inductive Step where
  | submit (origin : Origin) (call : Call)
  | setTime (now : UInt64)
  | forceCredentialCount (count : UInt64)
  | killVerificationKey
  | killRequireIssuerAllowlist
  | benchmark (pallet : Pallet) (name : String)
  | query (q : Query)

/-- The answer to a step. -/
inductive Reply where
  /-- The call ran: its events, or why it failed. -/
  | dispatched (result : Except DispatchError (List Event))
  /-- The call's arguments were out of bounds. -/
  | tooLong
  /-- Storage was written. -/
  | done
  /-- The benchmark finished, or why not. -/
  | benchmarked (result : Except BenchmarkError Unit)
  | credential (c : Option Credential)
  | registryView (c : Option Credential)
  | word (w : UInt64)
  | count (n : Nat)
  | flag (b : Bool)
  | storedFlag (b : Option Bool)
  | key (bytes : Option (List UInt8))
  | event (e : Option Event)
  | fixtures (p : Policy) (a : Attributes) (s : Salts)
  | holderProof (signals : PublicSignals) (valid : Bool)
  /-- The chain does not run the part the step addresses. -/
  | unserved

/-- The part a query reads. -/
def Query.pallet : Query → Pallet
  | .requireIssuerAllowlist | .isIssuerAllowed _ | .isNullifierUsed _ | .verificationKey
  | .sampleFixtures | .sampleHolderProof => .verifier
  | _ => .registry

/-- The part a step addresses. -/
def Step.pallet : Step → Pallet
  | .submit _ call => call.pallet
  | .killVerificationKey | .killRequireIssuerAllowlist => .verifier
  | .benchmark p _ => p
  | .query q => q.pallet
  | _ => .registry

namespace Chain

/-- The answer to a question. -/
def answer (c : Chain) : Query → Reply
  | .credential id => .credential (c.registry.credential? id)
  | .registryView id => .registryView (c.registry.credential? id)
  | .credentialCount => .word c.registry.count
  | .openIssuerMode => .flag c.registry.openIssuerMode
  | .isIssuer who => .flag (c.registry.isIssuer who)
  | .requireIssuerAllowlist => .storedFlag c.verifier.requireIssuerAllowlist
  | .isIssuerAllowed who => .flag (c.verifier.isIssuerAllowed who)
  | .isNullifierUsed n => .flag (c.verifier.isNullifierUsed n)
  | .verificationKey => .key c.verifier.verificationKey
  | .now => .word c.now
  | .lastEvent => .event c.events.getLast?
  | .eventCount => .count c.events.length
  | .sampleFixtures => .fixtures Sample.policy Sample.attributes Sample.salts
  | .sampleHolderProof => .holderProof Sample.holderPresentation.2 Sample.holderProofValid

/-- **One step**: the new chain and the answer. -/
def step (c : Chain) (s : Step) : Chain × Reply :=
  if !c.runtime.hosts s.pallet then (c, .unserved)
  else match s with
  | .submit o call =>
    if !call.withinBounds then (c, .tooLong)
    else
      match c.clearEvents.dispatch o call with
      | .ok c' => (c', .dispatched (.ok c'.events))
      | .error e => (c.clearEvents, .dispatched (.error e))
  | .setTime now => ({ c with now }, .done)
  | .forceCredentialCount n => ({ c with registry := { c.registry with count := n } }, .done)
  | .killVerificationKey =>
    ({ c with verifier := { c.verifier with verificationKey := none } }, .done)
  | .killRequireIssuerAllowlist =>
    ({ c with verifier := { c.verifier with requireIssuerAllowlist := none } }, .done)
  | .benchmark p name => (c, .benchmarked (Benchmark.run c p name))
  | .query q => (c, c.answer q)

/-- **A scenario**: the answers to the steps, in order. -/
def run (c : Chain) : List Step → List Reply
  | [] => []
  | s :: rest =>
    let (c', r) := c.step s
    r :: run c' rest

end Chain

end ZkPolicy
