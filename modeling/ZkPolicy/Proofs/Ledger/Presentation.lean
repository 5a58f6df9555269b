import ZkPolicy.Proofs.Ledger.Revocation

/-!
# Presenting a credential

A presentation is checked against seven gates, read off the chain's storage: the registry's
credential, the verifier's settings and used nullifiers, and the clock. This module states the
gates once, as a list in the order the verifier checks them (`Chain.presentationGates`), and
shows that a presentation call does nothing but what that list decides:

* `Verifier.failedGate?_eq_firstFailedGate`: the verifier's chain of checks reports exactly the
  first gate of the list that fails. Every gate after a failing one is irrelevant, including the
  nullifier gate, which is why a refused presentation never uses up its nullifier.
* `Chain.dispatch_verifyAndEmit_signed`: a signed presentation is refused with the first failed
  gate and leaves the chain as it was, or is accepted, uses up its nullifier and logs one
  `verified` event.
* `Chain.verifyAndEmit_contract`: the whole contract, origins included.

The gate conditions are stated on storage and not through the verifier's own helpers: the
allowlist flag is the stored flag with its default `true`, a credential is expired from its
expiry time on, and the proof gate fails when no key is stored.
-/

namespace ZkPolicy

namespace Chain

/-- **The gates of a presentation**, in the order they are checked, each with the error that
reports it and whether the presentation by `who` passes it. The gates that read the credential
pass vacuously when there is none, since the first gate already fails then. -/
def presentationGates (c : Chain) (who : AccountId) (id : UInt64) (ss : PublicSignals)
    (proof : Groth16.Proof.Wire) (nullifier : Bytes32) : List (VerifierError × Bool) :=
  let cred := c.registry.credentials.get? id
  [(.notOwner, cred.any fun cr => cr.owner = who),
   (.issuerNotAllowed, !(c.verifier.requireIssuerAllowlist.getD true) ||
      cred.all fun cr => c.verifier.allowedIssuers.contains cr.issuer),
   (.expired, cred.all fun cr => c.now < cr.expiry),
   (.revoked, cred.all fun cr => !cr.revoked),
   (.rootMismatch, cred.all fun cr => ss.root = cr.commitmentRoot),
   (.nullifierUsed, !c.verifier.usedNullifiers.contains nullifier),
   (.invalidProof, c.verifier.verificationKey.any fun key =>
      Presentation.verify key proof ss.toList)]

/-- The error of the first gate the presentation fails, if it fails one. -/
def firstFailedGate (c : Chain) (who : AccountId) (id : UInt64) (ss : PublicSignals)
    (proof : Groth16.Proof.Wire) (nullifier : Bytes32) : Option VerifierError :=
  ((c.presentationGates who id ss proof nullifier).find? fun g => !g.2).map Prod.fst

end Chain

namespace Verifier

/-- The proof gate reads the stored key: no key, no valid proof. -/
theorem proofHolds_eq_any (v : Verifier) (proof : Groth16.Proof.Wire) (ss : PublicSignals) :
    v.proofHolds proof ss = v.verificationKey.any fun key =>
      Presentation.verify key proof ss.toList := by
  unfold proofHolds
  cases v.verificationKey <;> rfl

/-- The verifier's checks, run against the chain's registry and clock, report the first failed
gate of `Chain.presentationGates`. -/
theorem failedGate?_eq_firstFailedGate (c : Chain) (who : AccountId) (id : UInt64)
    (ss : PublicSignals) (proof : Groth16.Proof.Wire) (nullifier : Bytes32) :
    c.verifier.failedGate? c.registry.credential? c.now who id ss proof nullifier =
      c.firstFailedGate who id ss proof nullifier := by
  simp only [failedGate?, Chain.firstFailedGate, Chain.presentationGates, Registry.credential?]
  cases hc : c.registry.credentials.get? id with
  | none => simp
  | some cr =>
    simp only [Option.any_some, Option.all_some, List.find?_cons, allowlistRequired,
      isIssuerAllowed, isNullifierUsed, proofHolds_eq_any, Credential.isExpiredAt]
    -- gate by gate: a failing gate ends both sides, a passing one is dropped from both
    by_cases ho : cr.owner = who
    case neg => simp [ho]
    by_cases ha : c.verifier.requireIssuerAllowlist.getD true = true ∧
        c.verifier.allowedIssuers.contains cr.issuer = false
    case pos => simp [ho, ha.1, ha.2]
    have ha' : (!c.verifier.requireIssuerAllowlist.getD true ||
        c.verifier.allowedIssuers.contains cr.issuer) = true := by
      cases hq : c.verifier.requireIssuerAllowlist.getD true <;> simp_all
    by_cases he : cr.expiry ≤ c.now
    case pos => simp [ho, ha, ha', he, UInt64.not_lt.2 he]
    have he' : c.now < cr.expiry := UInt64.not_le.1 he
    by_cases hr : cr.revoked = true
    case pos => simp [ho, ha, ha', he, he', hr]
    by_cases hm : ss.root = cr.commitmentRoot
    case neg => simp [ho, ha, ha', he, he', hr, hm]
    by_cases hn : c.verifier.usedNullifiers.contains nullifier = true
    case pos => simp [ho, ha, ha', he, he', hr, hm, hn]
    cases c.verifier.verificationKey.any fun key => Presentation.verify key proof ss.toList <;>
      simp [ho, ha, ha', he, he', hr, hm, hn]

/-- An accepted presentation carried an unused nullifier: the sixth gate is passed only then. -/
theorem isNullifierUsed_of_failedGate?_eq_none {v : Verifier}
    {credential? : UInt64 → Option Credential} {now : UInt64} {who : AccountId} {id : UInt64}
    {ss : PublicSignals} {proof : Groth16.Proof.Wire} {nullifier : Bytes32}
    (h : v.failedGate? credential? now who id ss proof nullifier = none) :
    v.isNullifierUsed nullifier = false := by
  cases hn : v.isNullifierUsed nullifier
  · rfl
  · unfold failedGate? at h
    repeat' split at h
    all_goals simp_all

end Verifier

namespace Chain

/-- A presentation without a signer is refused before any gate. -/
theorem dispatch_verifyAndEmit_of_signer?_none {c : Chain} {o : Origin} (ho : o.signer? = none)
    (id : UInt64) (ss : PublicSignals) (proof : Groth16.Proof.Wire)
    (policyHash nullifier : Bytes32) :
    c.dispatch o (.verifyAndEmit id ss proof policyHash nullifier) = .error .badOrigin := by
  simp [dispatch, execute, signer_eq_error ho, bind, Except.bind]

/-- **A signed presentation.** It is refused with the verifier's first failed gate, or accepted:
then its nullifier is used up and one `verified` event is logged, and nothing else changes. -/
theorem dispatch_verifyAndEmit_signed (c : Chain) (who : AccountId) (id : UInt64)
    (ss : PublicSignals) (proof : Groth16.Proof.Wire) (policyHash nullifier : Bytes32) :
    c.dispatch (.signed who) (.verifyAndEmit id ss proof policyHash nullifier) =
      match c.verifier.failedGate? c.registry.credential? c.now who id ss proof nullifier with
      | some e => .error (.verifier e)
      | none => .ok { c with verifier := c.verifier.useNullifier nullifier
                             events := c.events ++ [.verified who id policyHash nullifier] } := by
  simp only [dispatch, execute, signer, Origin.signer?, Verifier.present, bind, Except.bind]
  cases c.verifier.failedGate? c.registry.credential? c.now who id ss proof nullifier <;> rfl

/-- **The presentation contract.** A call without a signer fails with `badOrigin`. A signed call
fails with the first of the seven gates that the presentation does not pass, and then the
chain, its log included, is as before; it succeeds exactly when every gate passes, and then the
only changes are the nullifier, now used, and one `verified` event appended to the log. -/
theorem verifyAndEmit_contract (c : Chain) (o : Origin) (id : UInt64) (ss : PublicSignals)
    (proof : Groth16.Proof.Wire) (policyHash nullifier : Bytes32) :
    c.dispatch o (.verifyAndEmit id ss proof policyHash nullifier) =
      match o.signer? with
      | none => .error .badOrigin
      | some who =>
        match c.firstFailedGate who id ss proof nullifier with
        | some e => .error (.verifier e)
        | none => .ok { c with
            verifier := { c.verifier with
              usedNullifiers := c.verifier.usedNullifiers.insert nullifier () }
            events := c.events ++ [.verified who id policyHash nullifier] } := by
  cases ho : o.signer? with
  | none => exact dispatch_verifyAndEmit_of_signer?_none ho id ss proof policyHash nullifier
  | some who =>
    obtain rfl : o = .signed who := by cases o <;> simp_all [Origin.signer?]
    rw [dispatch_verifyAndEmit_signed, Verifier.failedGate?_eq_firstFailedGate]
    rfl

end Chain

end ZkPolicy
