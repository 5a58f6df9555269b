import ZkPolicy.Proofs.Ledger.History
import ZkPolicy.Proofs.Encoding.Words

/-!
# What an accepted presentation rests on

A presentation reads the registry through one look-up, and the registry is a function of its
history (`Registry.Follows`). Putting the verifier's gates and the registry's history together,
this module says when a presentation at a reachable state of the full chain is accepted, in
terms of the run alone:

* `Verifier.failedGate?_eq_none_iff`: the seven gates pass exactly when the credential exists,
  belongs to the caller, passes the allowlist if one is required, has not expired and is not
  revoked, carries the presented root, the nullifier is fresh and the proof holds.
* `Verifier.leNat_root_lt_of_proofHolds`: the proof gate reads every public signal as a scalar,
  so a root that passes it is a canonical scalar word.
* `Chain.presentation_accepted_iff`: from any genesis of the full chain, after any run of calls,
  clock changes and questions, a signed presentation of id `k` is accepted exactly when the
  `k`-th successful mint of the run issued it to the caller, no successful revoke named `k`, the
  registry still stores it as minted, the clock is before its expiry, the presented root is its
  root and a canonical scalar, its issuer is allowlisted if that is required, the nullifier is
  fresh and the proof holds. So once a revoke of `k` has succeeded, no later presentation of `k`
  is accepted, and a credential minted with a root that is no scalar's word never is.
-/

namespace ZkPolicy

namespace Verifier

/-- **The gates of a presentation**, all passed. -/
theorem failedGate?_eq_none_iff {v : Verifier} {credential? : UInt64 → Option Credential}
    {now : UInt64} {who : AccountId} {id : UInt64} {ss : PublicSignals}
    {proof : Groth16.Proof.Wire} {nullifier : Bytes32} :
    v.failedGate? credential? now who id ss proof nullifier = none ↔
      ∃ cr, credential? id = some cr ∧ cr.owner = who ∧
        (v.allowlistRequired = true → v.isIssuerAllowed cr.issuer = true) ∧
        now < cr.expiry ∧ cr.revoked = false ∧ ss.root = cr.commitmentRoot ∧
        v.isNullifierUsed nullifier = false ∧ v.proofHolds proof ss = true := by
  unfold failedGate?
  cases hc : credential? id with
  | none => simp
  | some cr =>
    simp only [Option.some.injEq, exists_eq_left', Credential.isExpiredAt]
    -- gate by gate: a failing gate makes both sides false, a passing one is dropped
    by_cases ho : cr.owner = who
    case neg => simp [ho]
    by_cases ha : v.allowlistRequired = true ∧ v.isIssuerAllowed cr.issuer = false
    case pos => simp [ho, ha.1, ha.2]
    have ha' : v.allowlistRequired = true → v.isIssuerAllowed cr.issuer = true := by
      cases h₁ : v.allowlistRequired <;> cases h₂ : v.isIssuerAllowed cr.issuer <;> simp_all
    have ha'' : (v.allowlistRequired && !v.isIssuerAllowed cr.issuer) = false := by
      cases h₁ : v.allowlistRequired <;> cases h₂ : v.isIssuerAllowed cr.issuer <;> simp_all
    by_cases he : cr.expiry ≤ now
    case pos => simp [ho, ha'', he, UInt64.not_lt.2 he]
    have he' : now < cr.expiry := UInt64.not_le.1 he
    by_cases hr : cr.revoked = true
    case pos => simp [ho, ha'', he, hr]
    by_cases hm : ss.root = cr.commitmentRoot
    case neg => simp [ho, ha'', he, hr, hm]
    by_cases hn : v.isNullifierUsed nullifier = true
    case pos => simp [ho, ha'', he, hr, hm, hn]
    cases hp : v.proofHolds proof ss
    · simp [ho, ha'', he, hr, hm, hn]
    · simpa [ho, ha'', he, he', hr, hm, hn, hp] using ha'

/-- The proof gate reads every signal as a scalar: a root that passes it is canonical. -/
theorem leNat_root_lt_of_proofHolds {v : Verifier} {proof : Groth16.Proof.Wire}
    {ss : PublicSignals} (h : v.proofHolds proof ss = true) :
    Residue.leNat ss.root.toList < Fr.modulus := by
  rw [proofHolds_eq_any, Option.any_eq_true] at h
  obtain ⟨key, -, hv⟩ := h
  unfold Presentation.verify at hv
  split at hv
  · next xs hxs =>
    have hmem : ss.root ∈ ss.toList := by
      simp [PublicSignals.root, Vector.get]
    exact leNat_lt_of_decodeSignals hxs _ hmem
  · cases hv

end Verifier

namespace Chain

variable {c c' : Chain}

/-- No call changes what the chain runs. -/
theorem runtime_execute {o : Origin} {call : Call} {es : List Event}
    (h : c.execute o call = .ok (c', es)) : c'.runtime = c.runtime := by
  cases call <;> simp only [execute, Except.bind_eq_ok_iff, Except.mapError_eq_ok_iff, pure,
    Except.pure, Except.ok.injEq, Prod.mk.injEq] at h
  case mint | revoke | verifyAndEmit | setVerificationKey =>
    obtain ⟨_, _, _, _, rfl, rfl⟩ := h
    rfl
  all_goals
    obtain ⟨_, _, rfl, rfl⟩ := h
    rfl

/-- No step changes what the chain runs. -/
theorem runtime_step (c : Chain) (s : Step) : (c.step s).1.runtime = c.runtime := by
  unfold step
  split
  · rfl
  · cases s with
    | submit o call =>
      dsimp only
      split
      · rfl
      · split
        · next c' hd =>
          obtain ⟨c'', es, he, rfl⟩ := dispatch_eq_ok_iff.1 hd
          have hc := runtime_execute he
          exact hc
        · rfl
    | _ => rfl

theorem runtime_afterSteps (c : Chain) (steps : List Step) :
    (c.afterSteps steps).runtime = c.runtime := by
  induction steps generalizing c with
  | nil => rfl
  | cons s rest ih => rw [afterSteps_cons, ih, runtime_step]

theorem runtime_genesis {rt : Runtime} {rg : RegistryGenesis} {vg : VerifierGenesis} {c₀ : Chain}
    (h : genesis rt rg vg = .ok c₀) : c₀.runtime = rt := by
  cases rt
  · simp only [genesis, pure, Except.pure, Except.ok.injEq] at h
    subst h
    rfl
  · simp only [genesis, Except.bind_eq_ok_iff, pure, Except.pure, Except.ok.injEq] at h
    obtain ⟨v, -, rfl⟩ := h
    rfl

/-- On the full chain a signed presentation is accepted exactly when it passes every gate. -/
theorem presentation_ok_iff (hrt : c.runtime = .full) (who : AccountId) (id : UInt64)
    (ss : PublicSignals) (proof : Groth16.Proof.Wire) (policyHash nullifier : Bytes32) :
    (∃ es, (c.step (.submit (.signed who) (.verifyAndEmit id ss proof policyHash nullifier))).2 =
        .dispatched (.ok es)) ↔
      c.verifier.failedGate? c.registry.credential? c.now who id ss proof nullifier = none := by
  -- the call runs on the chain with its log emptied, which has the same storage and clock
  have hd := dispatch_verifyAndEmit_signed c.clearEvents who id ss proof policyHash nullifier
  simp only [step, hrt, Runtime.hosts, Step.pallet, Call.withinBounds, Bool.not_true,
    Bool.false_eq_true, if_false, hd]
  cases hg : c.verifier.failedGate? c.registry.credential? c.now who id ss proof nullifier <;>
    simp [hg, clearEvents]

/-- **A presentation is accepted exactly when the run justifies it.** From any genesis of the
full chain, after any run of calls by any origins, clock changes, benchmarks and questions, a
presentation of id `k` signed by `who` is accepted exactly when: the `k`-th successful mint of
the run issued credential `cr` to `who`; no successful revoke named `k`; the registry still
stores `cr` as minted; the clock is before its expiry; the presented root is `cr`'s root and a
canonical scalar word; if the allowlist is required, the account that minted it is on it; the
nullifier is fresh; and the proof holds. -/
theorem presentation_accepted_iff {rg : RegistryGenesis} {vg : VerifierGenesis} {c₀ : Chain}
    (h : genesis .full rg vg = .ok c₀) (pre : List Step)
    (hpre : ∀ s ∈ pre, s.writesRegistry = false) (who : AccountId) (id : UInt64)
    (ss : PublicSignals) (proof : Groth16.Proof.Wire) (policyHash nullifier : Bytes32) :
    (∃ es, ((c₀.afterSteps pre).step
        (.submit (.signed who) (.verifyAndEmit id ss proof policyHash nullifier))).2 =
        .dispatched (.ok es)) ↔
      ∃ cr, id ≠ 0 ∧ (mintsOf (c₀.registryActs pre))[id.toNat - 1]? = some cr ∧
        cr.owner = who ∧ id ∉ revokedIdsOf (c₀.registryActs pre) ∧
        (c₀.afterSteps pre).registry.credential? id = some cr ∧
        (c₀.afterSteps pre).now < cr.expiry ∧
        ss.root = cr.commitmentRoot ∧ Residue.leNat cr.commitmentRoot.toList < Fr.modulus ∧
        ((c₀.afterSteps pre).verifier.allowlistRequired = true →
          (c₀.afterSteps pre).verifier.isIssuerAllowed cr.issuer = true) ∧
        (c₀.afterSteps pre).verifier.isNullifierUsed nullifier = false ∧
        (c₀.afterSteps pre).verifier.proofHolds proof ss = true := by
  have hrt : (c₀.afterSteps pre).runtime = .full :=
    (runtime_afterSteps c₀ pre).trans (runtime_genesis h)
  have hf := follows_afterSteps pre hpre (follows_genesis h)
  rw [List.nil_append] at hf
  rw [presentation_ok_iff hrt, Verifier.failedGate?_eq_none_iff]
  constructor
  · rintro ⟨cr, hcr, ho, ha, he, hr, hm, hn, hp⟩
    -- a live credential of the registry is the one its mint issued
    obtain ⟨hid, hmint, hrev⟩ :=
      (historyCredential?_unrevoked_iff _ id cr).1 ⟨(hf.credential?_eq id).symm.trans hcr, hr⟩
    have hroot := Verifier.leNat_root_lt_of_proofHolds hp
    rw [hm] at hroot
    exact ⟨cr, hid, hmint, ho, hrev, hcr, he, hm, hroot, ha, hn, hp⟩
  · rintro ⟨cr, hid, hmint, ho, hrev, hcr, he, hm, -, ha, hn, hp⟩
    have hr : cr.revoked = false := revoked_of_mem_mintsOf (List.mem_of_getElem? hmint)
    exact ⟨cr, hcr, ho, ha, he, hr, hm, hn, hp⟩

/-- A run of the full chain from its default genesis that sets an issuer and allowlists it,
mints two credentials and revokes the second writes nothing around its calls, so its
presentations are accepted exactly as `presentation_accepted_iff` says; and since the revoke
succeeded, no presentation of credential 2 is accepted, whatever its signals and proof. -/
theorem presentation_accepted_iff_after_revoke :
    let c₀ : Chain := { runtime := .full, verifier := { requireIssuerAllowlist := some true } }
    let steps : List Step :=
      [.submit .root (.setIssuer (Bytes32.fill 2) true),
       .submit (.signed (Bytes32.fill 2)) (.mint (Bytes32.fill 1) 100 (Bytes32.fill 3)),
       .submit (.signed (Bytes32.fill 2)) (.mint (Bytes32.fill 4) 200 (Bytes32.fill 5)),
       .submit .root (.setIssuerAllowed (Bytes32.fill 2) true),
       .setTime 50,
       .submit (.signed (Bytes32.fill 2)) (.revoke 2)]
    genesis .full {} {} = .ok c₀ ∧ (∀ s ∈ steps, s.writesRegistry = false) ∧
    (∀ (who : AccountId) (id : UInt64) (ss : PublicSignals) (proof : Groth16.Proof.Wire)
      (policyHash nullifier : Bytes32),
      ((∃ es, ((c₀.afterSteps steps).step
          (.submit (.signed who) (.verifyAndEmit id ss proof policyHash nullifier))).2 =
          .dispatched (.ok es)) ↔
        ∃ cr, id ≠ 0 ∧ (mintsOf (c₀.registryActs steps))[id.toNat - 1]? = some cr ∧
          cr.owner = who ∧ id ∉ revokedIdsOf (c₀.registryActs steps) ∧
          (c₀.afterSteps steps).registry.credential? id = some cr ∧
          (c₀.afterSteps steps).now < cr.expiry ∧
          ss.root = cr.commitmentRoot ∧ Residue.leNat cr.commitmentRoot.toList < Fr.modulus ∧
          ((c₀.afterSteps steps).verifier.allowlistRequired = true →
            (c₀.afterSteps steps).verifier.isIssuerAllowed cr.issuer = true) ∧
          (c₀.afterSteps steps).verifier.isNullifierUsed nullifier = false ∧
          (c₀.afterSteps steps).verifier.proofHolds proof ss = true)) ∧
    ∀ (who : AccountId) (ss : PublicSignals) (proof : Groth16.Proof.Wire)
      (policyHash nullifier : Bytes32),
      ¬ ∃ es, ((c₀.afterSteps steps).step
          (.submit (.signed who) (.verifyAndEmit 2 ss proof policyHash nullifier))).2 =
          .dispatched (.ok es) := by
  intro c₀ steps
  have hgen : genesis .full {} {} = .ok c₀ := rfl
  have hpre : ∀ s ∈ steps, s.writesRegistry = false := by decide
  have hiff := @presentation_accepted_iff {} {} c₀ hgen steps hpre
  refine ⟨hgen, hpre, hiff, ?_⟩
  rintro who ss proof policyHash nullifier hacc
  -- the run's revoke of credential 2 succeeded, so no presentation of it passes
  obtain ⟨cr, -, -, -, hrev, -⟩ := (hiff who 2 ss proof policyHash nullifier).1 hacc
  exact hrev (by decide)

end Chain

end ZkPolicy
