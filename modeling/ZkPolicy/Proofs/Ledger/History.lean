import ZkPolicy.Proofs.Ledger.Nullifiers

/-!
# The registry follows its history

A run of the chain leaves a *history* in the registry: the credentials that successful mints
issued, in order, and the ids that successful revokes named. This module shows that the
registry's storage is at every moment a function of that history alone:

* `Registry.Follows r acts`: the count is the number of mints in `acts`, the credential under
  id `k` is the one the `k`-th mint issued, marked revoked exactly when `acts` revokes `k`, and
  no other id holds anything (`historyCredential?`); every revoked id was minted before.
* `Registry.Follows.mint`, `Registry.Follows.revoke`: the step lemmas of the two calls that
  write credentials. A mint stores under the id after the count, which no revoke has named yet
  because revokes only succeed on stored credentials; a revoke rewrites one record and keeps
  every field but the flag.
* `Chain.follows_step` and `Chain.follows_afterSteps`: every step preserves the invariant, the
  history growing by what the step did, except a direct write of the id counter
  (`Step.writesRegistry`), which is no call.
* `Chain.registry_follows_history`: from any genesis, along every run of calls, clock changes
  and questions, the registry is its history, its ids are exactly `1 … count`, and a credential
  once stored keeps its owner, issuer, expiry and root for good, and its revocation too.
-/

namespace ZkPolicy

/-- A successful call that writes the registry's credentials, as a run's history records it. -/
inductive RegistryAct where
  /-- A mint: the owner, the signer as issuer, the expiry and the commitment root. -/
  | minted (owner issuer : AccountId) (expiry : UInt64) (root : Bytes32)
  /-- A revoke of the credential under an id. -/
  | revoked (id : UInt64)
deriving DecidableEq

namespace RegistryAct

/-- The credential a mint issued. -/
def minted? : RegistryAct → Option Credential
  | minted owner issuer expiry root => some (.issue owner issuer expiry root)
  | revoked _ => none

/-- The id a revoke named. -/
def revoked? : RegistryAct → Option UInt64
  | minted .. => none
  | revoked id => some id

end RegistryAct

/-- The credentials a history minted, in the order of their mints. -/
def mintsOf (acts : List RegistryAct) : List Credential := acts.filterMap RegistryAct.minted?

/-- The ids a history revoked. -/
def revokedIdsOf (acts : List RegistryAct) : List UInt64 := acts.filterMap RegistryAct.revoked?

/-- **The credential a history leaves under an id**: none under 0, and under `k > 0` the one the
`k`-th mint issued, revoked exactly when the history revokes `k`. -/
def historyCredential? (acts : List RegistryAct) (k : UInt64) : Option Credential :=
  if k = 0 then none
  else ((mintsOf acts)[k.toNat - 1]?).map fun cr =>
    { cr with revoked := decide (k ∈ revokedIdsOf acts) }

theorem toNat_pos_of_ne_zero {k : UInt64} (hk : k ≠ 0) : 0 < k.toNat := by
  rw [Nat.pos_iff_ne_zero, Ne, ← UInt64.toNat_zero, UInt64.toNat_inj]
  exact hk

@[simp] theorem mintsOf_nil : mintsOf [] = [] := rfl

@[simp] theorem revokedIdsOf_nil : revokedIdsOf [] = [] := rfl

@[simp] theorem mintsOf_append (acts more : List RegistryAct) :
    mintsOf (acts ++ more) = mintsOf acts ++ mintsOf more := by
  simp [mintsOf]

@[simp] theorem revokedIdsOf_append (acts more : List RegistryAct) :
    revokedIdsOf (acts ++ more) = revokedIdsOf acts ++ revokedIdsOf more := by
  simp [revokedIdsOf]

@[simp] theorem mintsOf_minted (owner issuer : AccountId) (expiry : UInt64) (root : Bytes32) :
    mintsOf [.minted owner issuer expiry root] = [.issue owner issuer expiry root] := rfl

@[simp] theorem mintsOf_revoked (id : UInt64) : mintsOf [.revoked id] = [] := rfl

@[simp] theorem revokedIdsOf_minted (owner issuer : AccountId) (expiry : UInt64) (root : Bytes32) :
    revokedIdsOf [.minted owner issuer expiry root] = [] := rfl

@[simp] theorem revokedIdsOf_revoked (id : UInt64) : revokedIdsOf [.revoked id] = [id] := rfl

/-- A mint adds its credential under the id after the last, and changes no other id. The new
id's flag reads the old history: the invariant below shows that it was never revoked. -/
theorem historyCredential?_minted (acts : List RegistryAct) (owner issuer : AccountId)
    (expiry : UInt64) (root : Bytes32) (k : UInt64) :
    historyCredential? (acts ++ [.minted owner issuer expiry root]) k =
      if k ≠ 0 ∧ k.toNat = (mintsOf acts).length + 1 then
        some { Credential.issue owner issuer expiry root with
          revoked := decide (k ∈ revokedIdsOf acts) }
      else historyCredential? acts k := by
  unfold historyCredential?
  by_cases hk : k = 0
  case pos => simp [hk]
  simp only [hk, if_false, mintsOf_append, mintsOf_minted, revokedIdsOf_append,
    revokedIdsOf_minted, List.append_nil, ne_eq, not_false_eq_true, true_and]
  have hpos := toNat_pos_of_ne_zero hk
  rw [List.getElem?_append]
  by_cases hlt : k.toNat - 1 < (mintsOf acts).length
  · rw [if_pos hlt, if_neg (by omega)]
  · rw [if_neg hlt]
    by_cases heq : k.toNat = (mintsOf acts).length + 1
    · rw [if_pos heq]
      simp [show k.toNat - 1 - (mintsOf acts).length = 0 by omega]
    · -- past the new credential both sides hold nothing
      rw [if_neg heq, List.getElem?_eq_none (show (mintsOf acts).length ≤ k.toNat - 1 by omega),
        List.getElem?_eq_none (by simp; omega)]

/-- A revoke marks the credential under its id revoked and changes no other id. -/
theorem historyCredential?_revoked (acts : List RegistryAct) (id k : UInt64) :
    historyCredential? (acts ++ [.revoked id]) k =
      if k = id then (historyCredential? acts k).map ({ · with revoked := true })
      else historyCredential? acts k := by
  unfold historyCredential?
  by_cases hk : k = id
  · subst hk
    by_cases h0 : k = 0 <;> simp [h0, Option.map_map, Function.comp_def]
  · simp [hk]

/-- Under an id, a history holds something exactly from 1 to the number of its mints. -/
theorem isSome_historyCredential?_iff (acts : List RegistryAct) (k : UInt64) :
    (historyCredential? acts k).isSome ↔ k ≠ 0 ∧ k.toNat ≤ (mintsOf acts).length := by
  unfold historyCredential?
  by_cases hk : k = 0
  case pos => simp [hk]
  have hpos := toNat_pos_of_ne_zero hk
  simp only [hk, if_false, Option.isSome_map, isSome_getElem?, ne_eq, not_false_eq_true,
    true_and]
  omega

/-- Every credential a history minted was issued unrevoked. -/
theorem revoked_of_mem_mintsOf {acts : List RegistryAct} {cr : Credential} (h : cr ∈ mintsOf acts) :
    cr.revoked = false := by
  obtain ⟨a, -, ha⟩ := List.mem_filterMap.1 h
  cases a with
  | minted owner issuer expiry root => cases ha; rfl
  | revoked id => cases ha

/-- An unrevoked credential of a history is the very one its mint issued, and no revoke of the
history names its id. -/
theorem historyCredential?_unrevoked_iff (acts : List RegistryAct) (k : UInt64) (cr : Credential) :
    historyCredential? acts k = some cr ∧ cr.revoked = false ↔
      k ≠ 0 ∧ (mintsOf acts)[k.toNat - 1]? = some cr ∧ k ∉ revokedIdsOf acts := by
  unfold historyCredential?
  by_cases hk : k = 0
  case pos => simp [hk]
  simp only [hk, if_false, Option.map_eq_some_iff, ne_eq, not_false_eq_true, true_and]
  constructor
  · rintro ⟨⟨m, hm, rfl⟩, hr⟩
    have hm' : m.revoked = false := revoked_of_mem_mintsOf (List.mem_of_getElem? hm)
    simp only [decide_eq_false_iff_not] at hr
    refine ⟨?_, hr⟩
    rw [hm]
    cases m
    simp_all
  · rintro ⟨hm, hr⟩
    have hm' : cr.revoked = false := revoked_of_mem_mintsOf (List.mem_of_getElem? hm)
    refine ⟨⟨cr, hm, ?_⟩, hm'⟩
    cases cr
    simp_all

/-- What a history holds under an id is still there after more acts, with the same owner,
issuer, expiry and root, and revoked if it was or if the later acts revoke it. -/
theorem historyCredential?_append {acts : List RegistryAct} {k : UInt64} {cr : Credential}
    (h : historyCredential? acts k = some cr) (more : List RegistryAct) :
    historyCredential? (acts ++ more) k =
      some { cr with revoked := cr.revoked || decide (k ∈ revokedIdsOf more) } := by
  unfold historyCredential? at h ⊢
  by_cases hk : k = 0
  case pos => simp [hk] at h
  simp only [hk, if_false, Option.map_eq_some_iff] at h ⊢
  obtain ⟨m, hm, rfl⟩ := h
  refine ⟨m, ?_, by simp⟩
  obtain ⟨hlt, -⟩ := List.getElem?_eq_some_iff.1 hm
  rw [mintsOf_append, List.getElem?_append_left hlt, hm]

namespace Registry

/-- **The registry follows a history**: its count is the number of mints, and under every id it
holds what the history leaves there (`historyCredential?`). Every id the history revokes was
minted: a revoke only succeeds on a stored credential. -/
structure Follows (r : Registry) (acts : List RegistryAct) : Prop where
  count_eq : r.count.toNat = (mintsOf acts).length
  credential?_eq : ∀ k, r.credential? k = historyCredential? acts k
  revoked_minted : ∀ k ∈ revokedIdsOf acts, k ≠ 0 ∧ k.toNat ≤ (mintsOf acts).length

/-- The ids holding a credential are exactly `1 … count`. -/
theorem Follows.isSome_credential?_iff {r : Registry} {acts : List RegistryAct}
    (hf : r.Follows acts) (k : UInt64) :
    (r.credential? k).isSome ↔ k ≠ 0 ∧ k.toNat ≤ r.count.toNat := by
  rw [hf.credential?_eq, isSome_historyCredential?_iff, hf.count_eq]

/-- A registry with no credentials and a zero count follows the empty history. -/
theorem follows_nil {r : Registry} (hc : r.credentials = {}) (hn : r.count = 0) : r.Follows [] where
  count_eq := by simp [hn]
  credential?_eq k := by
    simp [credential?, hc, historyCredential?]
    rfl
  revoked_minted := by simp

/-- A write that leaves the credentials and the count alone keeps the history. -/
theorem Follows.of_eq {r r' : Registry} {acts : List RegistryAct} (hf : r.Follows acts)
    (hc : r'.credentials = r.credentials) (hn : r'.count = r.count) : r'.Follows acts where
  count_eq := hn ▸ hf.count_eq
  credential?_eq k := by rw [← hf.credential?_eq k]; simp [credential?, hc]
  revoked_minted := hf.revoked_minted

variable {r r' : Registry} {acts : List RegistryAct}

/-- A successful mint moves the count one up. -/
theorem count_mint {issuer owner : AccountId} {expiry : UInt64} {root : Bytes32} {e : Event}
    (h : r.mint issuer owner expiry root = .ok (r', e)) : r'.count.toNat = r.count.toNat + 1 := by
  unfold mint at h
  split at h
  · split at h
    · next id hid =>
      cases h
      unfold nextId? at hid
      split at hid
      · cases hid
        simp [UInt64.toNat_add]
        omega
      · cases hid
    · cases h
  · cases h

/-- **The step lemma of a mint.** The new id is the one after the count, so the history's next
credential lands there, and it was never revoked, since every revoked id is at most the count. -/
theorem Follows.mint {issuer owner : AccountId} {expiry : UInt64} {root : Bytes32} {e : Event}
    (hf : r.Follows acts) (h : r.mint issuer owner expiry root = .ok (r', e)) :
    r'.Follows (acts ++ [.minted owner issuer expiry root]) where
  count_eq := by simp [count_mint h, hf.count_eq]
  credential?_eq k := by
    have hcount := count_mint h
    rw [get?_mint h, historyCredential?_minted, ← hf.credential?_eq]
    -- the new id is the one whose number is one past the mints so far
    have hnew : k = r'.count ↔ k ≠ 0 ∧ k.toNat = (mintsOf acts).length + 1 := by
      rw [← UInt64.toNat_inj, hcount, hf.count_eq]
      constructor
      · intro hk
        refine ⟨fun h0 => ?_, hk⟩
        simp [h0] at hk
      · exact And.right
    by_cases hk : k = r'.count
    · have hk' := hnew.1 hk
      have hfresh : k ∉ revokedIdsOf acts := fun hmem => by
        have := (hf.revoked_minted k hmem).2
        omega
      rw [if_pos hk, if_pos hk']
      simp [hfresh, Credential.issue]
    · rw [if_neg hk, if_neg (fun h' => hk (hnew.2 h'))]
  revoked_minted k hk := by
    simp only [revokedIdsOf_append, revokedIdsOf_minted, List.append_nil] at hk
    have := hf.revoked_minted k hk
    simp only [mintsOf_append, mintsOf_minted, List.length_append, List.length_singleton]
    exact ⟨this.1, by omega⟩

/-- A successful revoke names a stored credential of the signer's; it marks that one revoked
and keeps everything else. -/
theorem revoke_eq_ok {s : AccountId} {id : UInt64} {es : List Event}
    (h : r.revoke s id = .ok (r', es)) :
    ∃ cr, r.credential? id = some cr ∧ cr.issuer = s ∧ r'.count = r.count ∧
      ∀ k, r'.credential? k = if k = id then some { cr with revoked := true } else r.credential? k := by
  cases hc : r.credential? id with
  | none => rw [revoke_of_credential?_none hc] at h; cases h
  | some cr =>
    by_cases hi : cr.issuer = s
    case neg => rw [revoke_of_ne_issuer hc hi] at h; cases h
    refine ⟨cr, rfl, hi, ?_⟩
    cases hr : cr.revoked
    · rw [revoke_of_live hc hi hr] at h
      cases h
      exact ⟨rfl, fun k => credential?_insert _ _ _ _⟩
    · -- revoking twice writes nothing, and the record is already marked
      rw [revoke_of_revoked hc hi hr] at h
      cases h
      refine ⟨rfl, fun k => ?_⟩
      by_cases hk : k = id
      · subst hk; simp [hc, Credential.revoked_update_eq_self hr]
      · simp [hk]

/-- **The step lemma of a revoke.** The revoked id was stored, hence minted, and the history's
mark on it is the flag the revoke sets. -/
theorem Follows.revoke {s : AccountId} {id : UInt64} {es : List Event} (hf : r.Follows acts)
    (h : r.revoke s id = .ok (r', es)) : r'.Follows (acts ++ [.revoked id]) := by
  obtain ⟨cr, hcr, -, hcount, hcred⟩ := revoke_eq_ok h
  have hminted : id ≠ 0 ∧ id.toNat ≤ (mintsOf acts).length := by
    rw [← isSome_historyCredential?_iff, ← hf.credential?_eq, hcr]
    rfl
  refine ⟨?_, fun k => ?_, fun k hk => ?_⟩
  · simp [hcount, hf.count_eq]
  · rw [hcred, historyCredential?_revoked, ← hf.credential?_eq]
    by_cases hk : k = id
    · subst hk; simp [hcr]
    · simp [hk]
  · simp only [revokedIdsOf_append, revokedIdsOf_revoked, List.mem_append,
      List.mem_singleton] at hk
    simp only [mintsOf_append, mintsOf_revoked, List.append_nil]
    rcases hk with hk | rfl
    · exact hf.revoked_minted k hk
    · exact hminted

end Registry

/-- What a call adds to the registry's history if it succeeds: a mint issues its credential to
the signer's name, a revoke names its id, and no other call writes credentials. -/
def Call.registryAct? (o : Origin) : Call → Option RegistryAct
  | .mint owner expiry root => o.signer?.map fun issuer => .minted owner issuer expiry root
  | .revoke id => some (.revoked id)
  | _ => none

/-- What a step added to the registry's history: that of a call the chain ran successfully. -/
def Step.registryAct? : Step → Reply → Option RegistryAct
  | .submit o call, .dispatched (.ok _) => call.registryAct? o
  | _, _ => none

/-- Whether a step writes the registry's storage directly, around its calls: forcing the id
counter does. -/
def Step.writesRegistry : Step → Bool
  | .forceCredentialCount _ => true
  | _ => false

namespace Chain

/-- The registry's history written by a run, in order. -/
def registryActs (c : Chain) : List Step → List RegistryAct
  | [] => []
  | s :: rest => (s.registryAct? (c.step s).2).toList ++ (c.step s).1.registryActs rest

theorem registryActs_append (c : Chain) (pre post : List Step) :
    c.registryActs (pre ++ post) = c.registryActs pre ++ (c.afterSteps pre).registryActs post := by
  induction pre generalizing c with
  | nil => rfl
  | cons s rest ih => simp [registryActs, ih]

theorem signer?_of_signer_eq_ok {o : Origin} {s : AccountId} (h : signer o = .ok s) :
    o.signer? = some s := by
  unfold signer at h
  split at h
  · cases h; assumption
  · cases h

variable {c c' : Chain} {acts : List RegistryAct}

/-- **The step lemma for calls.** A successful call extends the registry's history by what it
did; only mints and revokes write credentials, and the other calls leave the count alone. -/
theorem follows_execute {o : Origin} {call : Call} {es : List Event}
    (hf : c.registry.Follows acts) (h : c.execute o call = .ok (c', es)) :
    c'.registry.Follows (acts ++ (call.registryAct? o).toList) := by
  cases call <;> simp only [execute, Except.bind_eq_ok_iff, Except.mapError_eq_ok_iff, pure,
    Except.pure, Except.ok.injEq, Prod.mk.injEq] at h
  case mint owner expiry root =>
    obtain ⟨issuer, hs, ⟨r, e⟩, hr, rfl, rfl⟩ := h
    simpa [Call.registryAct?, signer?_of_signer_eq_ok hs] using hf.mint hr
  case revoke id =>
    obtain ⟨sender, -, ⟨r, es'⟩, hr, rfl, rfl⟩ := h
    exact hf.revoke hr
  case setOpenIssuerMode | setIssuer =>
    -- the settings of who may mint: credentials and count untouched
    obtain ⟨_, _, rfl, rfl⟩ := h
    simp only [Call.registryAct?, Option.toList_none, List.append_nil]
    exact hf.of_eq rfl rfl
  case verifyAndEmit | setVerificationKey =>
    obtain ⟨_, _, _, _, rfl, rfl⟩ := h
    simpa [Call.registryAct?] using hf
  all_goals
    obtain ⟨_, _, rfl, rfl⟩ := h
    simpa [Call.registryAct?] using hf

/-- **The step lemma.** A step that does not write the registry around its calls extends its
history by what it did. -/
theorem follows_step {s : Step} (hs : s.writesRegistry = false) (hf : c.registry.Follows acts) :
    (c.step s).1.registry.Follows (acts ++ (s.registryAct? (c.step s).2).toList) := by
  by_cases hh : c.runtime.hosts s.pallet = true
  case neg => simpa [step, hh, Step.registryAct?] using hf
  cases s with
  | submit o call =>
    simp only [step, hh, Bool.not_true, Bool.false_eq_true, if_false]
    split
    · simpa [Step.registryAct?] using hf
    · split
      · next c' hd =>
        -- the call ran on the chain with its log emptied, whose registry is the chain's
        obtain ⟨c'', es, he, rfl⟩ := dispatch_eq_ok_iff.1 hd
        have hf' : c.clearEvents.registry.Follows acts := hf
        have hc := follows_execute hf' he
        exact hc
      · simpa [Step.registryAct?, clearEvents] using hf
  | forceCredentialCount n => cases hs
  | _ => simpa [step, hh, Step.registryAct?] using hf

/-- **The run lemma.** Along a run that does not write the registry around its calls, the
registry follows the history written so far. -/
theorem follows_afterSteps (steps : List Step) (hs : ∀ s ∈ steps, s.writesRegistry = false)
    (hf : c.registry.Follows acts) :
    (c.afterSteps steps).registry.Follows (acts ++ c.registryActs steps) := by
  induction steps generalizing c acts with
  | nil => simpa [registryActs] using hf
  | cons s rest ih =>
    have hstep := follows_step (hs s (by simp)) hf
    have hrest := ih (fun s' hs' => hs s' (by simp [hs'])) hstep
    simpa [registryActs] using hrest

/-- At genesis the registry has no credentials, whatever its settings. -/
theorem follows_genesis {rt : Runtime} {rg : RegistryGenesis} {vg : VerifierGenesis} {c₀ : Chain}
    (h : genesis rt rg vg = .ok c₀) : c₀.registry.Follows [] := by
  have hreg : c₀.registry = rg.build := by
    cases rt
    · simp only [genesis, pure, Except.pure, Except.ok.injEq] at h
      subst h
      rfl
    · simp only [genesis, Except.bind_eq_ok_iff, pure, Except.pure, Except.ok.injEq] at h
      obtain ⟨v, -, rfl⟩ := h
      rfl
  rw [hreg]
  exact Registry.follows_nil rfl rfl

/-- **The registry is its history.** From any genesis, along every run of calls by any origins,
clock changes, benchmarks and questions: the count is the number of successful mints; the ids
holding a credential are exactly `1 … count`; under id `k` is the credential that the `k`-th
successful mint issued, with that mint's owner, signer as issuer, expiry and root, revoked
exactly when some revoke of `k` succeeded; and a credential stored at any point of the run is
still stored at its end with the same owner, issuer, expiry and root, and still revoked if it
was. -/
theorem registry_follows_history {rt : Runtime} {rg : RegistryGenesis} {vg : VerifierGenesis}
    {c₀ : Chain} (h : genesis rt rg vg = .ok c₀) (steps : List Step)
    (hs : ∀ s ∈ steps, s.writesRegistry = false) :
    (c₀.afterSteps steps).registry.count.toNat = (mintsOf (c₀.registryActs steps)).length ∧
    (∀ k, ((c₀.afterSteps steps).registry.credential? k).isSome ↔
      k ≠ 0 ∧ k.toNat ≤ (c₀.afterSteps steps).registry.count.toNat) ∧
    (∀ k, (c₀.afterSteps steps).registry.credential? k =
      historyCredential? (c₀.registryActs steps) k) ∧
    ∀ pre post, steps = pre ++ post → ∀ k cr,
      (c₀.afterSteps pre).registry.credential? k = some cr →
      ∃ cr', (c₀.afterSteps steps).registry.credential? k = some cr' ∧
        cr'.owner = cr.owner ∧ cr'.issuer = cr.issuer ∧ cr'.expiry = cr.expiry ∧
        cr'.commitmentRoot = cr.commitmentRoot ∧ (cr.revoked = true → cr'.revoked = true) := by
  have hf := follows_afterSteps steps hs (follows_genesis h)
  rw [List.nil_append] at hf
  refine ⟨hf.count_eq, hf.isSome_credential?_iff, hf.credential?_eq, ?_⟩
  rintro pre post rfl k cr hcr
  have hpre := follows_afterSteps pre (fun s hs' => hs s (List.mem_append_left _ hs'))
    (follows_genesis h)
  rw [List.nil_append] at hpre
  rw [hpre.credential?_eq] at hcr
  -- the history of the prefix is a prefix of the history, so what it stored stays
  have hlater := historyCredential?_append hcr ((c₀.afterSteps pre).registryActs post)
  rw [← registryActs_append, ← hf.credential?_eq] at hlater
  exact ⟨_, hlater, rfl, rfl, rfl, rfl, fun hr => by simp [hr]⟩

/-- The registry-only chain with open issuing builds, and a run in which two accounts mint, one
revokes and a stranger tries to revoke writes nothing around its calls. -/
theorem registry_follows_history_of_open_mints :
    let c₀ : Chain := { runtime := .registryOnly, registry := { openIssuerMode := true } }
    let steps : List Step :=
      [.submit (.signed (Bytes32.fill 1)) (.mint (Bytes32.fill 2) 100 (Bytes32.fill 3)),
       .setTime 50,
       .submit (.signed (Bytes32.fill 4)) (.mint (Bytes32.fill 2) 200 (Bytes32.fill 5)),
       .submit (.signed (Bytes32.fill 1)) (.revoke 1),
       .submit (.signed (Bytes32.fill 6)) (.revoke 2)]
    genesis .registryOnly { openIssuerMode := true } {} = .ok c₀ ∧
    (∀ s ∈ steps, s.writesRegistry = false) ∧
    ((c₀.afterSteps steps).registry.count.toNat = (mintsOf (c₀.registryActs steps)).length ∧
    (∀ k, ((c₀.afterSteps steps).registry.credential? k).isSome ↔
      k ≠ 0 ∧ k.toNat ≤ (c₀.afterSteps steps).registry.count.toNat) ∧
    (∀ k, (c₀.afterSteps steps).registry.credential? k =
      historyCredential? (c₀.registryActs steps) k) ∧
    ∀ pre post, steps = pre ++ post → ∀ k cr,
      (c₀.afterSteps pre).registry.credential? k = some cr →
      ∃ cr', (c₀.afterSteps steps).registry.credential? k = some cr' ∧
        cr'.owner = cr.owner ∧ cr'.issuer = cr.issuer ∧ cr'.expiry = cr.expiry ∧
        cr'.commitmentRoot = cr.commitmentRoot ∧ (cr.revoked = true → cr'.revoked = true)) :=
  ⟨rfl, by decide,
    @registry_follows_history .registryOnly { openIssuerMode := true } {} _ rfl _ (by decide)⟩

end Chain

end ZkPolicy
