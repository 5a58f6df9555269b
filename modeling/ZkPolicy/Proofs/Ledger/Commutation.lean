import ZkPolicy.Proofs.Ledger.Frames
import ZkPolicy.Proofs.Ledger.Acceptance

/-!
# Presentations commute

A presentation reads the chain's storage and writes one item, the mark of its own nullifier.
Two presentations with different nullifiers therefore do not see each other: run in either
order, each gets the same answer and the chain ends with the same storage. Two presentations
with one nullifier exclude each other: the first accepted uses the nullifier up.

* `Chain.presentationVerdict` is what a presentation's step decides: the error of its origin or
  of its first failed gate, or acceptance from its signer; `Chain.step_verifyAndEmit` says what
  the step does from it.
* `Verifier.failedGate?_useNullifier_of_ne`: the gates read the used nullifiers only at the
  presented one, so using up another changes no verdict; `failedGate?_useNullifier_self`: once
  an accepted nullifier is used, a presentation that passed every gate fails at the nullifier
  gate.
* `Chain.presentations_commute`: on every chain, two presentations with different nullifiers
  get the same answers in either order and leave the same storage and clock; two with one
  nullifier are never both accepted, and when each would be accepted alone, the second fails
  with `NullifierUsed`.

The storage after the two orders is compared item by item (`Chain.read`): a table is a list of
entries, and the two orders put the two nullifiers' entries in different places of it.
-/

namespace ZkPolicy

namespace Verifier

variable {v : Verifier} {credential? : UInt64 → Option Credential} {now : UInt64}
  {who : AccountId} {id : UInt64} {ss : PublicSignals} {proof : Groth16.Proof.Wire}
  {nullifier : Bytes32}

@[simp] theorem allowlistRequired_useNullifier (m : Bytes32) :
    (v.useNullifier m).allowlistRequired = v.allowlistRequired := rfl

@[simp] theorem isIssuerAllowed_useNullifier (m : Bytes32) (who : AccountId) :
    (v.useNullifier m).isIssuerAllowed who = v.isIssuerAllowed who := rfl

@[simp] theorem proofHolds_useNullifier (m : Bytes32) (proof : Groth16.Proof.Wire)
    (ss : PublicSignals) : (v.useNullifier m).proofHolds proof ss = v.proofHolds proof ss := rfl

/-- The gates read the verifier only through its settings, its key and the mark of the
presented nullifier. -/
theorem failedGate?_congr {v' : Verifier} (hreq : v'.allowlistRequired = v.allowlistRequired)
    (hallowed : v'.allowedIssuers = v.allowedIssuers) (hkey : v'.verificationKey = v.verificationKey)
    (hused : v'.isNullifierUsed nullifier = v.isNullifierUsed nullifier) :
    v'.failedGate? credential? now who id ss proof nullifier =
      v.failedGate? credential? now who id ss proof nullifier := by
  simp only [failedGate?, isIssuerAllowed, proofHolds, hreq, hallowed, hkey, hused]
  rfl

/-- Using up another nullifier changes no gate. -/
theorem failedGate?_useNullifier_of_ne {m : Bytes32} (h : nullifier ≠ m) :
    (v.useNullifier m).failedGate? credential? now who id ss proof nullifier =
      v.failedGate? credential? now who id ss proof nullifier :=
  failedGate?_congr rfl rfl rfl (by simp [h])

/-- A presentation that passed every gate fails at the nullifier gate once its nullifier is
used: the five gates before it read nothing the nullifier changes. -/
theorem failedGate?_useNullifier_self (h : v.failedGate? credential? now who id ss proof nullifier = none) :
    (v.useNullifier nullifier).failedGate? credential? now who id ss proof nullifier =
      some .nullifierUsed := by
  obtain ⟨cr, hc, ho, ha, he, hr, hm, -, -⟩ := failedGate?_eq_none_iff.1 h
  have hallow : (v.allowlistRequired && !v.isIssuerAllowed cr.issuer) = false := by
    cases hreq : v.allowlistRequired
    · rfl
    · simp [ha hreq]
  have hexp : cr.isExpiredAt now = false := by
    simpa [Credential.isExpiredAt] using he
  simp [failedGate?, hc, ho, hallow, hexp, hr, hm]

end Verifier

namespace Chain

/-- **The verdict on a presentation**: refused with `BadOrigin` without a signer, refused with
the first gate it fails, or accepted from its signer. -/
def presentationVerdict (c : Chain) (o : Origin) (id : UInt64) (ss : PublicSignals)
    (proof : Groth16.Proof.Wire) (nullifier : Bytes32) : Except DispatchError AccountId :=
  match o.signer? with
  | none => .error .badOrigin
  | some who =>
    match c.verifier.failedGate? c.registry.credential? c.now who id ss proof nullifier with
    | some e => .error (.verifier e)
    | none => .ok who

/-- **The step of a presentation.** Where the verifier runs, a refused presentation empties the
log and changes nothing else; an accepted one uses its nullifier up and logs one event. -/
theorem step_verifyAndEmit (c : Chain) (o : Origin) (id : UInt64) (ss : PublicSignals)
    (proof : Groth16.Proof.Wire) (policyHash nullifier : Bytes32) :
    c.step (.submit o (.verifyAndEmit id ss proof policyHash nullifier)) =
      if c.runtime.hosts .verifier then
        match c.presentationVerdict o id ss proof nullifier with
        | .error e => (c.clearEvents, .dispatched (.error e))
        | .ok who =>
          ({ c with verifier := c.verifier.useNullifier nullifier
                    events := [.verified who id policyHash nullifier] },
            .dispatched (.ok [.verified who id policyHash nullifier]))
      else (c, .unserved) := by
  by_cases hh : c.runtime.hosts .verifier = true
  case neg => simp [step, hh, Step.pallet, Call.pallet]
  simp only [step, hh, Step.pallet, Call.pallet, Call.withinBounds, Bool.not_true,
    Bool.false_eq_true, if_false, if_true]
  cases ho : o.signer? with
  | none =>
    rw [dispatch_verifyAndEmit_of_signer?_none ho]
    simp [presentationVerdict, ho]
  | some who =>
    obtain rfl : o = .signed who := by cases o <;> simp_all [Origin.signer?]
    -- the call runs on the chain with its log emptied, which has the same storage and clock
    rw [dispatch_verifyAndEmit_signed]
    simp only [presentationVerdict, Origin.signer?, clearEvents]
    cases c.verifier.failedGate? c.registry.credential? c.now who id ss proof nullifier <;> rfl

variable {c : Chain} {o : Origin} {id : UInt64} {ss : PublicSignals} {proof : Groth16.Proof.Wire}
  {nullifier : Bytes32}

/-- Using up another nullifier changes no verdict. -/
theorem presentationVerdict_useNullifier_of_ne {m : Bytes32} (h : nullifier ≠ m)
    (events : List Event) :
    ({ c with verifier := c.verifier.useNullifier m, events } : Chain).presentationVerdict o id ss
      proof nullifier = c.presentationVerdict o id ss proof nullifier := by
  unfold presentationVerdict
  cases o.signer? with
  | none => rfl
  | some who => simp only [Verifier.failedGate?_useNullifier_of_ne h]

/-- An accepted presentation, presented again once its nullifier is used, fails at the
nullifier gate. -/
theorem presentationVerdict_useNullifier_self {who : AccountId}
    (h : c.presentationVerdict o id ss proof nullifier = .ok who) (events : List Event) :
    ({ c with verifier := c.verifier.useNullifier nullifier, events } : Chain).presentationVerdict
      o id ss proof nullifier = .error (.verifier .nullifierUsed) := by
  unfold presentationVerdict at h ⊢
  cases ho : o.signer? with
  | none => simp [ho] at h
  | some who' =>
    simp only [ho] at h ⊢
    cases hg : c.verifier.failedGate? c.registry.credential? c.now who' id ss proof nullifier with
    | some e => simp [hg] at h
    | none => simp [Verifier.failedGate?_useNullifier_self hg]

/-- Where the nullifier is used, no presentation of it is accepted. -/
theorem presentationVerdict_ne_ok_of_used (h : c.verifier.isNullifierUsed nullifier = true)
    (who : AccountId) : c.presentationVerdict o id ss proof nullifier ≠ .ok who := by
  unfold presentationVerdict
  cases o.signer? with
  | none => simp
  | some who' =>
    cases hg : c.verifier.failedGate? c.registry.credential? c.now who' id ss proof nullifier with
    | some e => simp [hg]
    | none =>
      have := Verifier.isNullifierUsed_of_failedGate?_eq_none hg
      simp_all

/-! ### One presentation step -/

/-- A chain whose nullifier `n` was just used reads as before but for that mark. -/
theorem read_useNullifier (c : Chain) (n : Bytes32) (events : List Event) (i : StorageItem) :
    ({ c with verifier := c.verifier.useNullifier n, events } : Chain).read i =
      if i = .usedNullifier n then .flag true else c.read i := by
  cases i with
  | usedNullifier k => by_cases hk : k = n <;> simp [Verifier.useNullifier, Table.contains_insert, hk]
  | _ => simp [Verifier.useNullifier]

@[simp] theorem presentationVerdict_clearEvents :
    c.clearEvents.presentationVerdict o id ss proof nullifier =
      c.presentationVerdict o id ss proof nullifier := rfl

variable (o id ss proof nullifier) (policyHash : Bytes32)

/-- The storage after a presentation step: the presented nullifier is marked if the step
accepted it, and nothing else changes. -/
theorem read_step_verifyAndEmit (i : StorageItem) :
    (c.step (.submit o (.verifyAndEmit id ss proof policyHash nullifier))).1.read i =
      if i = .usedNullifier nullifier ∧ c.runtime.hosts .verifier = true ∧
          (c.presentationVerdict o id ss proof nullifier).isOk = true
      then .flag true else c.read i := by
  rw [step_verifyAndEmit]
  by_cases hh : c.runtime.hosts .verifier = true
  case neg => simp [hh]
  cases hv : c.presentationVerdict o id ss proof nullifier with
  | error e => simp [hh, Except.isOk, Except.toBool, clearEvents, read_withEvents]
  | ok who => simp [hh, Except.isOk, Except.toBool, read_useNullifier]

theorem now_step_verifyAndEmit :
    (c.step (.submit o (.verifyAndEmit id ss proof policyHash nullifier))).1.now = c.now := by
  rw [step_verifyAndEmit]
  split
  · split <;> rfl
  · rfl

/-- A presentation step accepted only where the verifier runs and the verdict accepts, and then
the chain is the one with the nullifier used. -/
theorem step_verifyAndEmit_of_ok {es : List Event}
    (h : (c.step (.submit o (.verifyAndEmit id ss proof policyHash nullifier))).2 =
      .dispatched (.ok es)) :
    c.runtime.hosts .verifier = true ∧ ∃ who, c.presentationVerdict o id ss proof nullifier = .ok who ∧
      (c.step (.submit o (.verifyAndEmit id ss proof policyHash nullifier))).1 =
        { c with verifier := c.verifier.useNullifier nullifier
                 events := [.verified who id policyHash nullifier] } := by
  rw [step_verifyAndEmit] at h ⊢
  by_cases hh : c.runtime.hosts .verifier = true
  case neg => simp [hh] at h
  cases hv : c.presentationVerdict o id ss proof nullifier with
  | error e => simp [hh, hv] at h
  | ok who => simp [hh]

variable {o id ss proof policyHash nullifier}

/-- **Independence of presentations.** A presentation step changes the verdict of no
presentation of another nullifier. -/
theorem presentationVerdict_step_of_ne {o' : Origin} {id' : UInt64} {ss' : PublicSignals}
    {proof' : Groth16.Proof.Wire} {nullifier' : Bytes32} (h : nullifier' ≠ nullifier) :
    (c.step (.submit o (.verifyAndEmit id ss proof policyHash nullifier))).1.presentationVerdict
      o' id' ss' proof' nullifier' = c.presentationVerdict o' id' ss' proof' nullifier' := by
  rw [step_verifyAndEmit]
  split
  · split
    · rfl
    · exact presentationVerdict_useNullifier_of_ne h _
  · rfl

/-- After a presentation step, a presentation of another nullifier gets the answer it would
have got before. -/
theorem reply_step_step_of_ne {o' : Origin} {id' : UInt64} {ss' : PublicSignals}
    {proof' : Groth16.Proof.Wire} {policyHash' nullifier' : Bytes32} (h : nullifier' ≠ nullifier) :
    ((c.step (.submit o (.verifyAndEmit id ss proof policyHash nullifier))).1.step
        (.submit o' (.verifyAndEmit id' ss' proof' policyHash' nullifier'))).2 =
      (c.step (.submit o' (.verifyAndEmit id' ss' proof' policyHash' nullifier'))).2 := by
  -- the first step keeps the runtime and the second presentation's verdict
  have hrt := runtime_step c (.submit o (.verifyAndEmit id ss proof policyHash nullifier))
  have hv : (c.step (.submit o (.verifyAndEmit id ss proof policyHash nullifier))).1.presentationVerdict
      o' id' ss' proof' nullifier' = c.presentationVerdict o' id' ss' proof' nullifier' :=
    presentationVerdict_step_of_ne h
  generalize (c.step (.submit o (.verifyAndEmit id ss proof policyHash nullifier))).1 = c₁ at hrt hv
  rw [step_verifyAndEmit, step_verifyAndEmit, hrt, hv]
  split
  · cases c.presentationVerdict o' id' ss' proof' nullifier' <;> rfl
  · rfl

/-! ### Two presentations -/

theorem run_pair (c : Chain) (s₁ s₂ : Step) :
    c.run [s₁, s₂] = [(c.step s₁).2, ((c.step s₁).1.step s₂).2] := rfl

theorem afterSteps_pair (c : Chain) (s₁ s₂ : Step) :
    c.afterSteps [s₁, s₂] = ((c.step s₁).1.step s₂).1 := rfl

/-- **Presentations commute.** On every chain, take two presentations by any origins, of any
credentials, signals, proofs and policy hashes. If their nullifiers differ, running them in
either order gives each the same answer (so the two `verified` events come in the two orders)
and leaves the same storage and clock. If their nullifiers are equal, the two are never both
accepted, and if each would be accepted alone, the first is accepted and the second fails with
`NullifierUsed`. The other order is the same statement with the two presentations swapped. -/
theorem presentations_commute (c : Chain) (o₁ o₂ : Origin) (id₁ id₂ : UInt64)
    (ss₁ ss₂ : PublicSignals) (proof₁ proof₂ : Groth16.Proof.Wire)
    (policyHash₁ policyHash₂ nullifier₁ nullifier₂ : Bytes32) :
    let s₁ := Step.submit o₁ (.verifyAndEmit id₁ ss₁ proof₁ policyHash₁ nullifier₁)
    let s₂ := Step.submit o₂ (.verifyAndEmit id₂ ss₂ proof₂ policyHash₂ nullifier₂)
    (nullifier₁ ≠ nullifier₂ →
      c.run [s₁, s₂] = (c.run [s₂, s₁]).reverse ∧
        (∀ i, (c.afterSteps [s₁, s₂]).read i = (c.afterSteps [s₂, s₁]).read i) ∧
        (c.afterSteps [s₁, s₂]).now = (c.afterSteps [s₂, s₁]).now) ∧
    (nullifier₁ = nullifier₂ →
      (∀ es₁ es₂, c.run [s₁, s₂] ≠ [.dispatched (.ok es₁), .dispatched (.ok es₂)]) ∧
      ∀ es₁ es₂, (c.step s₁).2 = .dispatched (.ok es₁) → (c.step s₂).2 = .dispatched (.ok es₂) →
        c.run [s₁, s₂] = [.dispatched (.ok es₁), .dispatched (.error (.verifier .nullifierUsed))]) := by
  dsimp only
  refine ⟨fun hne => ⟨?_, fun i => ?_, ?_⟩, fun heq => ⟨fun es₁ es₂ h => ?_, fun es₁ es₂ h₁ h₂ => ?_⟩⟩
  · -- each answer is the one it gets alone
    rw [run_pair, run_pair, reply_step_step_of_ne (Ne.symm hne), reply_step_step_of_ne hne]
    rfl
  · -- each order marks the nullifiers that were accepted alone
    rw [afterSteps_pair, afterSteps_pair, read_step_verifyAndEmit, read_step_verifyAndEmit,
      read_step_verifyAndEmit, read_step_verifyAndEmit, runtime_step, runtime_step,
      presentationVerdict_step_of_ne (Ne.symm hne), presentationVerdict_step_of_ne hne]
    -- both orders mark the same nullifiers
    grind
  · rw [afterSteps_pair, afterSteps_pair, now_step_verifyAndEmit, now_step_verifyAndEmit,
      now_step_verifyAndEmit, now_step_verifyAndEmit]
  · -- the first accepted uses the nullifier up, so the second cannot be accepted
    subst heq
    rw [run_pair, List.cons.injEq, List.cons.injEq] at h
    obtain ⟨h₁, h₂, -⟩ := h
    obtain ⟨-, who₁, -, hc₁⟩ := step_verifyAndEmit_of_ok _ _ _ _ _ _ h₁
    obtain ⟨-, who₂, hv₂, -⟩ := step_verifyAndEmit_of_ok _ _ _ _ _ _ h₂
    rw [hc₁] at hv₂
    exact presentationVerdict_ne_ok_of_used (by simp) who₂ hv₂
  · -- both accepted alone: the second now fails at the nullifier gate
    subst heq
    obtain ⟨hh, who₁, -, hc₁⟩ := step_verifyAndEmit_of_ok _ _ _ _ _ _ h₁
    obtain ⟨-, who₂, hv₂, -⟩ := step_verifyAndEmit_of_ok _ _ _ _ _ _ h₂
    rw [run_pair, h₁, hc₁, step_verifyAndEmit, presentationVerdict_useNullifier_self hv₂]
    simp [hh]

end Chain

end ZkPolicy
