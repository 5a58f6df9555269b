import ZkPolicy.Proofs.Ledger.Nullifiers
import ZkPolicy.Proofs.Encoding.Words

/-!
# The stored verifying key

The verifier keeps the bytes of one verifying key, set at genesis or by the admin. Both ways in
check the key as the proof gate will read it: it must decode, and it must expect exactly the
eleven public signals. This module shows that the check holds of the stored key along every run:

* `Chain.verificationKey_of_execute`: the step lemma for calls. Only the key call writes the key
  (`Call.storedKey?`), and it succeeds only with a key the verifier accepts.
* `Chain.keyAccepted_step` and `Chain.keyAccepted_afterSteps`: every step keeps the key accepted
  or absent; a scenario may also delete the key directly, which keeps it absent.
* `Chain.setVerificationKey_contract`: a key call by anyone but the admin fails with `badOrigin`,
  whatever the key; the admin's call fails with `invalidVerificationKey` on a key that does not
  pass, and otherwise stores the key and logs one event.
* `Verifier.proofHolds_iff_of_keyAccepted`: under an accepted key the proof gate never fails for
  the number of inputs, since eleven words always decode to eleven scalars.
* `Chain.storedKey_accepted`: all of it, at every state reached from a genesis that builds.
-/

namespace ZkPolicy

open Groth16

/-- The key a call stores if it succeeds: the key call's own. No other call has one. -/
def Call.storedKey? : Call → Option (List UInt8)
  | .setVerificationKey key => some key
  | _ => none

namespace Verifier

/-- The verifier accepts exactly the bytes that decode to a key expecting the eleven signals. -/
theorem acceptsKey_iff (bytes : List UInt8) :
    acceptsKey bytes = true ↔ ∃ vk, VerifyingKey.ofBytes? bytes = some vk ∧ vk.inputCount = Signal.count := by
  unfold acceptsKey
  cases VerifyingKey.ofBytes? bytes <;> simp

/-- **The key invariant**: the stored key, if there is one, is one the verifier accepts. -/
def KeyAccepted (v : Verifier) : Prop := ∀ key, v.verificationKey = some key → acceptsKey key = true

theorem keyAccepted_of_verificationKey_eq_none {v : Verifier} (h : v.verificationKey = none) :
    v.KeyAccepted := by
  intro key hkey
  rw [h] at hkey
  cases hkey

/-- A successful key call stored an accepted key, and nothing else changes in the verifier. -/
theorem setVerificationKey_eq_ok {v v' : Verifier} {key : List UInt8} {e : Event}
    (h : v.setVerificationKey key = .ok (v', e)) :
    acceptsKey key = true ∧ v' = { v with verificationKey := some key } := by
  unfold setVerificationKey at h
  split at h
  · next hk =>
    cases h
    exact ⟨hk, rfl⟩
  · cases h

/-- Presenting writes only the used nullifiers. -/
theorem verificationKey_of_present {v v' : Verifier} {credential? : UInt64 → Option Credential}
    {now : UInt64} {who : AccountId} {id : UInt64} {ss : PublicSignals}
    {proof : Groth16.Proof.Wire} {policyHash nullifier : Bytes32} {e : Event}
    (h : v.present credential? now who id ss proof policyHash nullifier = .ok (v', e)) :
    v'.verificationKey = v.verificationKey := by
  rw [(usedNullifiers_of_present h).2]
  rfl

/-- **No count failure under an accepted key.** When the stored key is accepted, a presented
proof holds exactly when the key, the proof and the signals decode and Groth16 accepts them: the
check that the key expects as many inputs as there are signals always passes. -/
theorem proofHolds_iff_of_keyAccepted {v : Verifier} (hv : v.KeyAccepted)
    (proof : Groth16.Proof.Wire) (ss : PublicSignals) :
    v.proofHolds proof ss = true ↔
      ∃ key vk p xs, v.verificationKey = some key ∧ VerifyingKey.ofBytes? key = some vk ∧
        Proof.ofWire? proof = some p ∧ decodeSignals ss.toList = some xs ∧
        Groth16.verify vk p xs = true := by
  unfold proofHolds
  cases hkey : v.verificationKey with
  | none => simp
  | some key =>
    obtain ⟨vk, hvk, hcount⟩ := (acceptsKey_iff key).1 (hv key hkey)
    simp only [Presentation.verify, hvk, Option.some.injEq, exists_and_left, exists_eq_left']
    cases hp : Proof.ofWire? proof with
    | none => simp
    | some p =>
      cases hxs : decodeSignals ss.toList with
      | none => simp
      | some xs =>
        -- the key expects eleven inputs and eleven words give eleven scalars
        have hlen := length_of_decodeSignals hxs
        simp [hcount, hlen]

end Verifier

namespace Chain

/-- **The step lemma for calls.** A successful call stores its key, which the verifier accepts,
if it is the key call, and leaves the stored key alone otherwise. -/
theorem verificationKey_of_execute {c c' : Chain} {o : Origin} {call : Call} {es : List Event}
    (h : c.execute o call = .ok (c', es)) :
    (∀ key, call.storedKey? = some key → Verifier.acceptsKey key = true) ∧
    c'.verifier.verificationKey = call.storedKey?.or c.verifier.verificationKey := by
  cases call <;> simp only [execute, Except.bind_eq_ok_iff, Except.mapError_eq_ok_iff, pure,
    Except.pure, Except.ok.injEq, Prod.mk.injEq] at h
  case setVerificationKey key =>
    obtain ⟨_, _, ⟨v, e⟩, hv, rfl, rfl⟩ := h
    obtain ⟨hk, rfl⟩ := Verifier.setVerificationKey_eq_ok hv
    refine ⟨fun key' hkey => ?_, rfl⟩
    cases hkey
    exact hk
  case verifyAndEmit =>
    obtain ⟨_, _, ⟨v, e⟩, hv, rfl, rfl⟩ := h
    exact ⟨(fun _ h => by cases h), Verifier.verificationKey_of_present hv⟩
  case mint | revoke =>
    -- a registry call: the verifier is untouched
    obtain ⟨_, _, _, _, rfl, rfl⟩ := h
    exact ⟨(fun _ h => by cases h), rfl⟩
  all_goals
    obtain ⟨_, _, rfl, rfl⟩ := h
    exact ⟨(fun _ h => by cases h), rfl⟩

/-- A successful call keeps the key invariant. -/
theorem keyAccepted_of_execute {c c' : Chain} {o : Origin} {call : Call} {es : List Event}
    (h : c.execute o call = .ok (c', es)) (hc : c.verifier.KeyAccepted) :
    c'.verifier.KeyAccepted := by
  obtain ⟨hstored, hkey⟩ := verificationKey_of_execute h
  intro key hk
  rw [hkey] at hk
  cases hs : call.storedKey? with
  | some key' =>
    rw [hs, Option.some_or, Option.some.injEq] at hk
    exact hk ▸ hstored key' hs
  | none =>
    rw [hs, Option.none_or] at hk
    exact hc key hk

/-- **The step lemma.** Every step keeps the stored key accepted or absent: a call by the step
lemma for calls, a direct deletion of the key since nothing is left, and every other step since
it leaves the verifier as it was. -/
theorem keyAccepted_step (c : Chain) (s : Step) (hc : c.verifier.KeyAccepted) :
    (c.step s).1.verifier.KeyAccepted := by
  unfold step
  split
  · exact hc
  · cases s with
    | submit o call =>
      dsimp only
      split
      · exact hc
      · split
        · next c' hd =>
          -- the call ran on the chain with its log emptied, whose verifier is the chain's
          obtain ⟨c'', es, he, rfl⟩ := dispatch_eq_ok_iff.1 hd
          have hnext : c''.verifier.KeyAccepted := keyAccepted_of_execute he hc
          exact hnext
        · exact hc
    | killVerificationKey => exact Verifier.keyAccepted_of_verificationKey_eq_none rfl
    | setTime | forceCredentialCount | killRequireIssuerAllowlist | benchmark | query =>
      exact hc

/-- **The run lemma.** A run keeps the stored key accepted or absent. -/
theorem keyAccepted_afterSteps (c : Chain) (steps : List Step) (hc : c.verifier.KeyAccepted) :
    (c.afterSteps steps).verifier.KeyAccepted := by
  induction steps generalizing c with
  | nil => exact hc
  | cons s rest ih => exact ih _ (keyAccepted_step c s hc)

/-- The verifier's genesis storage holds no key, or one it accepts. -/
theorem keyAccepted_build {g : VerifierGenesis} {v : Verifier} (h : g.build = .ok v) :
    v.KeyAccepted := by
  unfold VerifierGenesis.build at h
  intro key hkey
  -- the refusals are not successes; a key that made it through passed the check
  repeat' split at h
  all_goals
    simp only [bind, Except.bind, throw, throwThe, MonadExceptOf.throw, pure, Except.pure,
      reduceCtorEq, Except.ok.injEq] at h
  all_goals subst h
  · cases hkey
  · next hk =>
    simp only [Option.some.injEq] at hkey
    subst hkey
    simpa using hk

/-- At genesis the stored key, if any, is accepted, whatever the runtime. -/
theorem keyAccepted_genesis {rt : Runtime} {rg : RegistryGenesis} {vg : VerifierGenesis}
    {c₀ : Chain} (h : genesis rt rg vg = .ok c₀) : c₀.verifier.KeyAccepted := by
  cases rt with
  | registryOnly =>
    simp only [genesis, pure, Except.pure, Except.ok.injEq] at h
    subst h
    exact Verifier.keyAccepted_of_verificationKey_eq_none rfl
  | full =>
    simp only [genesis, Except.bind_eq_ok_iff, pure, Except.pure, Except.ok.injEq] at h
    obtain ⟨v, hv, rfl⟩ := h
    exact keyAccepted_build hv

/-- **The key call.** Anyone but the admin is refused with `badOrigin`, whatever the key; the
admin is refused with `invalidVerificationKey` for a key the verifier does not accept, and in
both cases the chain, its log included, is as before. An accepted key is stored, and one event
is logged. -/
theorem setVerificationKey_contract (c : Chain) (o : Origin) (key : List UInt8) :
    c.dispatch o (.setVerificationKey key) =
      if o.isAdmin admin = false then .error .badOrigin
      else if Verifier.acceptsKey key = false then .error (.verifier .invalidVerificationKey)
      else .ok { c with verifier := { c.verifier with verificationKey := some key }
                        events := c.events ++ [.verificationKeySet] } := by
  cases ho : o.isAdmin admin
  · simp [dispatch, execute, ensureAdmin, ho, bind, Except.bind]
  · -- the admin passes the origin check; the key check decides
    cases hk : Verifier.acceptsKey key
    · simp only [dispatch, execute, ensureAdmin, ho, hk, Verifier.setVerificationKey, bind,
        Except.bind, if_true, Bool.false_eq_true, if_false]
      rfl
    · simp only [dispatch, execute, ensureAdmin, ho, hk, Verifier.setVerificationKey, bind,
        Except.bind, if_true]
      rfl

/-- **The stored key stays valid.** Along every run from a genesis that builds, whatever the
steps: the verifier holds no key, or bytes that decode to a key expecting exactly the eleven
signals; the key call is refused for anyone but the admin and, for the admin, for bytes failing
that check, leaving the chain as it was; no other call writes the key; and so the proof gate
never fails because of the number of inputs the key expects. -/
theorem storedKey_accepted {rt : Runtime} {rg : RegistryGenesis} {vg : VerifierGenesis}
    {c₀ : Chain} (h : genesis rt rg vg = .ok c₀) (steps : List Step) :
    let c := c₀.afterSteps steps
    (c.verifier.verificationKey = none ∨
      ∃ key vk, c.verifier.verificationKey = some key ∧ VerifyingKey.ofBytes? key = some vk ∧
        vk.inputCount = Signal.count) ∧
    (∀ o key, c.dispatch o (.setVerificationKey key) =
      if o.isAdmin admin = false then .error .badOrigin
      else if Verifier.acceptsKey key = false then .error (.verifier .invalidVerificationKey)
      else .ok { c with verifier := { c.verifier with verificationKey := some key }
                        events := c.events ++ [.verificationKeySet] }) ∧
    (∀ o call c' es, call.storedKey? = none → c.execute o call = .ok (c', es) →
      c'.verifier.verificationKey = c.verifier.verificationKey) ∧
    (∀ proof ss, c.verifier.proofHolds proof ss = true ↔
      ∃ key vk p xs, c.verifier.verificationKey = some key ∧ VerifyingKey.ofBytes? key = some vk ∧
        Proof.ofWire? proof = some p ∧ decodeSignals ss.toList = some xs ∧
        Groth16.verify vk p xs = true) := by
  intro c
  have hc : c.verifier.KeyAccepted := keyAccepted_afterSteps c₀ steps (keyAccepted_genesis h)
  refine ⟨?_, setVerificationKey_contract c, fun o call c' es hcall he => ?_,
    Verifier.proofHolds_iff_of_keyAccepted hc⟩
  · cases hkey : c.verifier.verificationKey with
    | none => exact Or.inl rfl
    | some key =>
      obtain ⟨vk, hvk, hcount⟩ := (Verifier.acceptsKey_iff key).1 (hc key hkey)
      exact Or.inr ⟨key, vk, rfl, hvk, hcount⟩
  · rw [(verificationKey_of_execute he).2, hcall, Option.none_or]

/-- The default genesis builds, and along a run that deletes the key and then stores a byte
string that does not decode, the invariant and the key call's contract are as stated. -/
theorem storedKey_accepted_from_default_genesis :
    genesis .full {} {} = .ok { runtime := .full, verifier := { requireIssuerAllowlist := some true } } ∧
    let c₀ : Chain := { runtime := .full, verifier := { requireIssuerAllowlist := some true } }
    let steps := [.killVerificationKey, .submit .root (.setVerificationKey [0, 1, 2])]
    let c := c₀.afterSteps steps
    ((c.verifier.verificationKey = none ∨
      ∃ key vk, c.verifier.verificationKey = some key ∧ VerifyingKey.ofBytes? key = some vk ∧
        vk.inputCount = Signal.count) ∧
    (∀ o key, c.dispatch o (.setVerificationKey key) =
      if o.isAdmin admin = false then .error .badOrigin
      else if Verifier.acceptsKey key = false then .error (.verifier .invalidVerificationKey)
      else .ok { c with verifier := { c.verifier with verificationKey := some key }
                        events := c.events ++ [.verificationKeySet] }) ∧
    (∀ o call c' es, call.storedKey? = none → c.execute o call = .ok (c', es) →
      c'.verifier.verificationKey = c.verifier.verificationKey) ∧
    (∀ proof ss, c.verifier.proofHolds proof ss = true ↔
      ∃ key vk p xs, c.verifier.verificationKey = some key ∧ VerifyingKey.ofBytes? key = some vk ∧
        Proof.ofWire? proof = some p ∧ decodeSignals ss.toList = some xs ∧
        Groth16.verify vk p xs = true)) :=
  ⟨rfl, @storedKey_accepted .full {} {} _ rfl _⟩

end Chain

end ZkPolicy
