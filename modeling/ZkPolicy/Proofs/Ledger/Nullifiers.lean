import ZkPolicy.Proofs.Ledger.Presentation
import ZkPolicy.Ledger.Scenario

/-!
# Nullifiers over whole runs

The verifier keeps the nullifiers of the presentations it accepted and refuses a presentation
whose nullifier it has kept. This module follows that set along every run of scenario steps and
shows that it is exactly the list of nullifiers of the accepted presentations, that the list
has no repetition, and that the set only grows.

* `Chain.usedNullifiers_of_execute`: the step lemma for calls. Only a presentation has a
  nullifier (`Call.nullifier?`); a successful call adds its nullifier to the used ones, which it
  did not contain, and changes them in no other way. Every other call writes other storage, and
  a failed call writes nothing.
* `Chain.isNullifierUsed_step`: the same for a scenario step, whatever it is: a setting written
  directly, a clock change, a benchmark (which rolls back), a question.
* `Chain.isNullifierUsed_afterSteps` and `Chain.acceptedNullifiers_fresh`: the run lemmas, by
  induction on the steps: the used set after a run is the used set before and the nullifiers the
  run accepted, and those were each fresh.
* `Chain.nullifier_single_use`: from any genesis of the full chain, where no nullifier is used.
-/

namespace ZkPolicy

/-- A sequenced computation succeeds exactly when each part succeeds in turn. -/
@[simp] theorem Except.bind_eq_ok_iff {ε α β : Type} {x : Except ε α} {f : α → Except ε β} {b : β} :
    x >>= f = .ok b ↔ ∃ a, x = .ok a ∧ f a = .ok b := by
  cases x <;> simp [bind, Except.bind]

/-- Renaming the errors changes no success. -/
@[simp] theorem Except.mapError_eq_ok_iff {ε ε' α : Type} {x : Except ε α} {g : ε → ε'} {a : α} :
    x.mapError g = .ok a ↔ x = .ok a := by
  -- by cases on `x`, without unfolding `mapError` into equation lemmas of its own
  cases x with
  | error e => exact ⟨fun h => (nomatch h), fun h => (nomatch h)⟩
  | ok b =>
    constructor
    · intro h
      cases h
      rfl
    · intro h
      cases h
      rfl

/-- The nullifier a call uses up if it succeeds: a presentation's own. No other call has one. -/
def Call.nullifier? : Call → Option Bytes32
  | .verifyAndEmit _ _ _ _ n => some n
  | _ => none

/-- The nullifier a step used up: that of a presentation the chain accepted. -/
def Step.acceptedNullifier? : Step → Reply → Option Bytes32
  | .submit _ call, .dispatched (.ok _) => call.nullifier?
  | _, _ => none

namespace Verifier

theorem usedNullifiers_of_setVerificationKey {v v' : Verifier} {key : List UInt8} {e : Event}
    (h : v.setVerificationKey key = .ok (v', e)) : v'.usedNullifiers = v.usedNullifiers := by
  unfold setVerificationKey at h
  split at h
  · cases h; rfl
  · cases h

/-- An accepted presentation had an unused nullifier, and used it up. -/
theorem usedNullifiers_of_present {v v' : Verifier} {credential? : UInt64 → Option Credential}
    {now : UInt64} {who : AccountId} {id : UInt64} {ss : PublicSignals}
    {proof : Groth16.Proof.Wire} {policyHash nullifier : Bytes32} {e : Event}
    (h : v.present credential? now who id ss proof policyHash nullifier = .ok (v', e)) :
    v.isNullifierUsed nullifier = false ∧ v' = v.useNullifier nullifier := by
  unfold present at h
  split at h
  · cases h
  · next hg =>
    cases h
    exact ⟨isNullifierUsed_of_failedGate?_eq_none hg, rfl⟩

end Verifier

namespace Chain

/-- **The step lemma for calls.** A successful call adds its nullifier, which was unused, to the
used ones, and changes them in no other way. -/
theorem usedNullifiers_of_execute {c c' : Chain} {o : Origin} {call : Call} {es : List Event}
    (h : c.execute o call = .ok (c', es)) :
    (∀ n, call.nullifier? = some n → c.verifier.isNullifierUsed n = false) ∧
    ∀ n, c'.verifier.isNullifierUsed n =
      (decide (call.nullifier? = some n) || c.verifier.isNullifierUsed n) := by
  cases call <;> simp only [execute, Except.bind_eq_ok_iff, Except.mapError_eq_ok_iff, pure,
    Except.pure, Except.ok.injEq, Prod.mk.injEq] at h
  case verifyAndEmit id ss proof policyHash nullifier =>
    obtain ⟨_, _, ⟨v, e⟩, hv, rfl, rfl⟩ := h
    obtain ⟨hn, rfl⟩ := Verifier.usedNullifiers_of_present hv
    refine ⟨fun n hn' => ?_, fun n => ?_⟩
    · cases hn'
      exact hn
    · simp [Call.nullifier?, eq_comm]
  case setVerificationKey key =>
    obtain ⟨_, _, ⟨v, e⟩, hv, rfl, rfl⟩ := h
    simp [Call.nullifier?, Verifier.isNullifierUsed,
      Verifier.usedNullifiers_of_setVerificationKey hv]
  case mint | revoke =>
    -- a registry call: the verifier is untouched
    obtain ⟨_, _, _, _, rfl, rfl⟩ := h
    simp [Call.nullifier?]
  all_goals
    obtain ⟨_, _, rfl, rfl⟩ := h
    simp [Call.nullifier?, Verifier.isNullifierUsed, Verifier.setRequireIssuerAllowlist,
      Verifier.setIssuerAllowed]

theorem dispatch_eq_ok_iff {c c' : Chain} {o : Origin} {call : Call} :
    c.dispatch o call = .ok c' ↔
      ∃ c'' es, c.execute o call = .ok (c'', es) ∧ c' = { c'' with events := c.events ++ es } := by
  unfold dispatch
  split
  · next c'' es h =>
    simp only [Except.ok.injEq, h, Prod.mk.injEq]
    constructor
    · rintro rfl
      exact ⟨c'', es, ⟨rfl, rfl⟩, rfl⟩
    · rintro ⟨_, _, ⟨rfl, rfl⟩, rfl⟩
      rfl
  · next e h => simp [h]

/-- **The step lemma.** A step adds to the used nullifiers the nullifier of the presentation it
accepted, if it accepted one, which was unused; it changes them in no other way. -/
theorem isNullifierUsed_step (c : Chain) (s : Step) :
    (∀ n, s.acceptedNullifier? (c.step s).2 = some n → c.verifier.isNullifierUsed n = false) ∧
    ∀ n, (c.step s).1.verifier.isNullifierUsed n =
      (decide (s.acceptedNullifier? (c.step s).2 = some n) || c.verifier.isNullifierUsed n) := by
  by_cases hs : c.runtime.hosts s.pallet = true
  case neg => simp [step, hs, Step.acceptedNullifier?]
  cases s with
  | submit o call =>
    simp only [step, hs, Bool.not_true, Bool.false_eq_true, if_false]
    split
    · simp [Step.acceptedNullifier?]
    · split
      · next c' hd =>
        -- the call ran on the chain with its log emptied, whose verifier is the chain's
        obtain ⟨c'', es, he, rfl⟩ := dispatch_eq_ok_iff.1 hd
        have hc := usedNullifiers_of_execute he
        exact hc
      · simp [Step.acceptedNullifier?, clearEvents]
  | _ => simp [step, hs, Step.acceptedNullifier?, Verifier.isNullifierUsed]

/-! ### Runs -/

/-- The chain after a run of steps. -/
def afterSteps (c : Chain) (steps : List Step) : Chain :=
  steps.foldl (fun c s => (c.step s).1) c

/-- The nullifiers of the presentations a run accepted, in the order it accepted them. -/
def acceptedNullifiers (c : Chain) : List Step → List Bytes32
  | [] => []
  | s :: rest => (s.acceptedNullifier? (c.step s).2).toList ++ (c.step s).1.acceptedNullifiers rest

@[simp] theorem afterSteps_nil (c : Chain) : c.afterSteps [] = c := rfl

@[simp] theorem afterSteps_cons (c : Chain) (s : Step) (rest : List Step) :
    c.afterSteps (s :: rest) = (c.step s).1.afterSteps rest := rfl

theorem afterSteps_append (c : Chain) (pre post : List Step) :
    c.afterSteps (pre ++ post) = (c.afterSteps pre).afterSteps post := by
  simp [afterSteps, List.foldl_append]

/-- **The run lemma.** After a run, a nullifier is used exactly when it was used before the run
or the run accepted a presentation carrying it. -/
theorem isNullifierUsed_afterSteps (c : Chain) (steps : List Step) (n : Bytes32) :
    (c.afterSteps steps).verifier.isNullifierUsed n = true ↔
      c.verifier.isNullifierUsed n = true ∨ n ∈ c.acceptedNullifiers steps := by
  induction steps generalizing c with
  | nil => simp [acceptedNullifiers]
  | cons s rest ih =>
    rw [afterSteps_cons, ih, (isNullifierUsed_step c s).2 n]
    simp only [acceptedNullifiers, List.mem_append, Option.mem_toList, Bool.or_eq_true,
      decide_eq_true_eq]
    grind

/-- The nullifiers a run accepted are distinct, and none was used when the run started. -/
theorem acceptedNullifiers_fresh (c : Chain) (steps : List Step) :
    (c.acceptedNullifiers steps).Nodup ∧
      ∀ n ∈ c.acceptedNullifiers steps, c.verifier.isNullifierUsed n = false := by
  induction steps generalizing c with
  | nil => simp [acceptedNullifiers]
  | cons s rest ih =>
    obtain ⟨hnodup, hfresh⟩ := ih (c.step s).1
    obtain ⟨hunused, hused⟩ := isNullifierUsed_step c s
    -- the step only adds nullifiers, so one unused after it was unused before
    have hback : ∀ n, (c.step s).1.verifier.isNullifierUsed n = false →
        c.verifier.isNullifierUsed n = false := by
      intro n h
      rw [hused] at h
      simp only [Bool.or_eq_false_iff] at h
      exact h.2
    refine ⟨?_, ?_⟩
    · simp only [acceptedNullifiers]
      cases ha : s.acceptedNullifier? (c.step s).2 with
      | none => simpa using hnodup
      | some m =>
        -- `m` is used once the step is done, so the rest of the run cannot accept it again
        have hm : (c.step s).1.verifier.isNullifierUsed m = true := by simp [hused, ha]
        refine List.nodup_cons.2 ⟨fun hmem => ?_, hnodup⟩
        rw [hfresh m hmem] at hm
        cases hm
    · intro n hn
      simp only [acceptedNullifiers, List.mem_append, Option.mem_toList] at hn
      rcases hn with hn | hn
      · exact hunused n hn
      · exact hback n (hfresh n hn)

/-- The verifier's genesis storage has no used nullifier, whatever its settings. -/
theorem usedNullifiers_of_build {g : VerifierGenesis} {v : Verifier} (h : g.build = .ok v) :
    v.usedNullifiers = {} := by
  unfold VerifierGenesis.build at h
  repeat' split at h
  all_goals
    simp only [bind, Except.bind, throw, throwThe, MonadExceptOf.throw, pure, Except.pure,
      reduceCtorEq, Except.ok.injEq] at h
  -- the refusals are not successes; both ways to succeed store no nullifier
  all_goals cases h
  all_goals rfl

/-- No nullifier is used at genesis. -/
theorem isNullifierUsed_genesis {rg : RegistryGenesis} {vg : VerifierGenesis} {c₀ : Chain}
    (h : genesis .full rg vg = .ok c₀) (n : Bytes32) : c₀.verifier.isNullifierUsed n = false := by
  simp only [genesis, Except.bind_eq_ok_iff, pure, Except.pure, Except.ok.injEq] at h
  obtain ⟨v, hv, rfl⟩ := h
  simp only [Verifier.isNullifierUsed, usedNullifiers_of_build hv]
  rfl

/-- **Nullifiers are used once.** Along every run of the full chain from its genesis, whatever
the steps (calls by any origin, clock changes, settings written directly), the used nullifiers
are exactly the nullifiers of the presentations accepted so far, no two accepted presentations
carry the same nullifier, and a used nullifier stays used for the rest of the run. -/
theorem nullifier_single_use {rg : RegistryGenesis} {vg : VerifierGenesis} {c₀ : Chain}
    (h : genesis .full rg vg = .ok c₀) (steps : List Step) :
    (∀ n, (c₀.afterSteps steps).verifier.isNullifierUsed n = true ↔
      n ∈ c₀.acceptedNullifiers steps) ∧
    (c₀.acceptedNullifiers steps).Nodup ∧
    ∀ pre post, steps = pre ++ post → ∀ n,
      (c₀.afterSteps pre).verifier.isNullifierUsed n = true →
      (c₀.afterSteps steps).verifier.isNullifierUsed n = true := by
  refine ⟨fun n => ?_, (acceptedNullifiers_fresh c₀ steps).1, ?_⟩
  · rw [isNullifierUsed_afterSteps, isNullifierUsed_genesis h n]
    simp
  · rintro pre post rfl n hn
    rw [afterSteps_append, isNullifierUsed_afterSteps]
    exact Or.inl hn

/-- The default genesis builds, and a run from it that presents the sample holder's proof twice
under one nullifier is covered. -/
theorem nullifier_single_use_from_default_genesis :
    genesis .full {} {} = .ok { runtime := .full, verifier := { requireIssuerAllowlist := some true } } ∧
    let c₀ : Chain := { runtime := .full, verifier := { requireIssuerAllowlist := some true } }
    let present : Step := .submit (.signed Keyring.bob)
      (.verifyAndEmit 1 Sample.holderPresentation.2 Sample.holderPresentation.1
        (Bytes32.fill 1) (Bytes32.fill 42))
    let steps := [.setTime 5, present, present]
    ((∀ n, (c₀.afterSteps steps).verifier.isNullifierUsed n = true ↔
        n ∈ c₀.acceptedNullifiers steps) ∧
      (c₀.acceptedNullifiers steps).Nodup ∧
      ∀ pre post, steps = pre ++ post → ∀ n,
        (c₀.afterSteps pre).verifier.isNullifierUsed n = true →
        (c₀.afterSteps steps).verifier.isNullifierUsed n = true) :=
  ⟨rfl, @nullifier_single_use {} {} _ rfl _⟩

end Chain

end ZkPolicy
