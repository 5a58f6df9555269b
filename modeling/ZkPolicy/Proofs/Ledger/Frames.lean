import ZkPolicy.Proofs.Ledger.StoredKey
import ZkPolicy.Proofs.Ledger.History

/-!
# Storage frames of the two parts

The registry and the verifier keep separate storage, and each call writes only a few items of
its own part. This module names the storage items (`StorageItem`), reads each one as the
chain's question about it answers (`Chain.read`), and says which items each call may write
(`Call.writes`):

* a mint writes the count and the credentials, a revoke the one credential it names;
* the registry's settings write open issuing, or the one account they add to or remove from
  the issuers;
* a presentation writes the one nullifier it carries;
* the verifier's settings write the allowlist flag, the one account they add to or remove from
  the allowlist, or the key.

Main statements:

* `Chain.read_execute`: a successful call changes no item it does not write. Every item a call
  writes belongs to the call's part (`Call.pallet_of_writes`), so a registry call leaves the
  verifier's storage as it was and the other way round; in particular the registry's issuers
  and the verifier's allowlist are separate sets, each written only by its own setting.
* `Chain.dispatch_of_not_admin`: a settings call from an origin other than the root authority
  and the admin account fails with `BadOrigin`, and so changes nothing.
* `Chain.storage_frames`: both, for every chain and every call.
-/

namespace ZkPolicy

/-- An item of the chain's storage: a stored value, or the entry of one key of a stored map. -/
inductive StorageItem where
  | credentialCount
  | credential (id : UInt64)
  | issuer (who : AccountId)
  | openIssuerMode
  | requireIssuerAllowlist
  | allowedIssuer (who : AccountId)
  | usedNullifier (n : Bytes32)
  | verificationKey
deriving DecidableEq

namespace StorageItem

/-- The part whose storage holds the item. -/
def pallet : StorageItem → Pallet
  | credentialCount | credential _ | issuer _ | openIssuerMode => .registry
  | requireIssuerAllowlist | allowedIssuer _ | usedNullifier _ | verificationKey => .verifier

/-- The question that reads the item. -/
def query : StorageItem → Query
  | credentialCount => .credentialCount
  | credential id => .credential id
  | issuer who => .isIssuer who
  | openIssuerMode => .openIssuerMode
  | requireIssuerAllowlist => .requireIssuerAllowlist
  | allowedIssuer who => .isIssuerAllowed who
  | usedNullifier n => .isNullifierUsed n
  | verificationKey => .verificationKey

end StorageItem

/-- The content of a storage item, as the question about it answers. -/
def Chain.read (c : Chain) (i : StorageItem) : Reply := c.answer i.query

/-- The storage items a call writes when it succeeds. -/
def Call.writes : Call → StorageItem → Bool
  | .mint .., .credentialCount | .mint .., .credential _ => true
  | .revoke id, .credential k => k = id
  | .setOpenIssuerMode _, .openIssuerMode => true
  | .setIssuer who _, .issuer k => k = who
  | .verifyAndEmit _ _ _ _ n, .usedNullifier k => k = n
  | .setRequireIssuerAllowlist _, .requireIssuerAllowlist => true
  | .setIssuerAllowed who _, .allowedIssuer k => k = who
  | .setVerificationKey _, .verificationKey => true
  | _, _ => false

/-- Whether a call changes a setting, which only the admin may do. -/
def Call.needsAdmin : Call → Bool
  | .setOpenIssuerMode _ | .setIssuer .. | .setRequireIssuerAllowlist _ | .setIssuerAllowed ..
  | .setVerificationKey _ => true
  | .mint .. | .revoke _ | .verifyAndEmit .. => false

/-- Every item a call writes is in the call's own part. -/
theorem Call.pallet_of_writes {call : Call} {i : StorageItem} (h : call.writes i = true) :
    i.pallet = call.pallet := by
  cases call <;> cases i <;> first | rfl | simp [Call.writes] at h

/-- The issuers and the allowlist are written by their own settings only. -/
example (w : AccountId) (b : Bool) :
    (Call.setIssuer w b).writes (.allowedIssuer w) = false ∧
      (Call.setIssuerAllowed w b).writes (.issuer w) = false := ⟨rfl, rfl⟩

namespace Chain

variable {c c' : Chain}

@[simp] theorem read_credentialCount : c.read .credentialCount = .word c.registry.count := rfl

@[simp] theorem read_credential (id : UInt64) :
    c.read (.credential id) = .credential (c.registry.credential? id) := rfl

@[simp] theorem read_issuer (who : AccountId) :
    c.read (.issuer who) = .flag (c.registry.issuers.contains who) := rfl

@[simp] theorem read_openIssuerMode : c.read .openIssuerMode = .flag c.registry.openIssuerMode :=
  rfl

@[simp] theorem read_requireIssuerAllowlist :
    c.read .requireIssuerAllowlist = .storedFlag c.verifier.requireIssuerAllowlist := rfl

@[simp] theorem read_allowedIssuer (who : AccountId) :
    c.read (.allowedIssuer who) = .flag (c.verifier.allowedIssuers.contains who) := rfl

@[simp] theorem read_usedNullifier (n : Bytes32) :
    c.read (.usedNullifier n) = .flag (c.verifier.usedNullifiers.contains n) := rfl

@[simp] theorem read_verificationKey : c.read .verificationKey = .key c.verifier.verificationKey :=
  rfl

end Chain

/-! ### What each call writes -/

namespace Registry

variable {r r' : Registry}

/-- A mint writes the count and the credentials only. -/
theorem mint_keeps {issuer owner : AccountId} {expiry : UInt64} {root : Bytes32} {e : Event}
    (h : r.mint issuer owner expiry root = .ok (r', e)) :
    r'.issuers = r.issuers ∧ r'.openIssuerMode = r.openIssuerMode := by
  unfold mint at h
  repeat' split at h
  all_goals cases h
  exact ⟨rfl, rfl⟩

/-- A revoke writes the credentials only. -/
theorem revoke_keeps {s : AccountId} {id : UInt64} {es : List Event}
    (h : r.revoke s id = .ok (r', es)) :
    r'.issuers = r.issuers ∧ r'.openIssuerMode = r.openIssuerMode := by
  unfold revoke at h
  repeat' split at h
  all_goals cases h
  all_goals exact ⟨rfl, rfl⟩

end Registry

namespace Chain

variable {c c' : Chain} {o : Origin} {es : List Event}

/-- Reading a table that one key was written in or erased from, at another key. -/
theorem contains_update_of_ne {κ : Type} [DecidableEq κ] (t : Table κ Unit) {k k' : κ} (hk : k' ≠ k)
    (b : Bool) : (if b then t.insert k () else t.erase k).contains k' = t.contains k' := by
  cases b <;> simp [Table.contains_insert, Table.contains_erase, hk]

theorem read_execute_mint {owner : AccountId} {expiry : UInt64} {root : Bytes32}
    (h : c.execute o (.mint owner expiry root) = .ok (c', es)) (i : StorageItem)
    (hi : (Call.mint owner expiry root).writes i = false) : c'.read i = c.read i := by
  simp only [execute, Except.bind_eq_ok_iff, Except.mapError_eq_ok_iff, pure, Except.pure,
    Except.ok.injEq, Prod.mk.injEq] at h
  obtain ⟨_, -, ⟨r, e⟩, hr, rfl, rfl⟩ := h
  obtain ⟨hiss, hopen⟩ := Registry.mint_keeps hr
  cases i with
  | credentialCount | credential _ => cases hi
  | issuer _ | openIssuerMode => simp [hiss, hopen]
  | _ => rfl

theorem read_execute_revoke {id : UInt64} (h : c.execute o (.revoke id) = .ok (c', es))
    (i : StorageItem) (hi : (Call.revoke id).writes i = false) : c'.read i = c.read i := by
  simp only [execute, Except.bind_eq_ok_iff, Except.mapError_eq_ok_iff, pure, Except.pure,
    Except.ok.injEq, Prod.mk.injEq] at h
  obtain ⟨_, -, ⟨r, es'⟩, hr, rfl, rfl⟩ := h
  obtain ⟨hiss, hopen⟩ := Registry.revoke_keeps hr
  obtain ⟨_, -, -, hcount, hcred⟩ := Registry.revoke_eq_ok hr
  cases i with
  | credential k =>
    -- another id keeps its credential
    have hk : k ≠ id := by simpa [Call.writes] using hi
    simp [hcred k, hk]
  | credentialCount | issuer _ | openIssuerMode => simp [hiss, hopen, hcount]
  | _ => rfl

theorem read_execute_setOpenIssuerMode {isOpen : Bool}
    (h : c.execute o (.setOpenIssuerMode isOpen) = .ok (c', es)) (i : StorageItem)
    (hi : (Call.setOpenIssuerMode isOpen).writes i = false) : c'.read i = c.read i := by
  simp only [execute, Except.bind_eq_ok_iff, pure, Except.pure, Except.ok.injEq,
    Prod.mk.injEq] at h
  obtain ⟨_, -, rfl, rfl⟩ := h
  cases i with
  | openIssuerMode => cases hi
  | _ => rfl

theorem read_execute_setIssuer {who : AccountId} {allowed : Bool}
    (h : c.execute o (.setIssuer who allowed) = .ok (c', es)) (i : StorageItem)
    (hi : (Call.setIssuer who allowed).writes i = false) : c'.read i = c.read i := by
  simp only [execute, Except.bind_eq_ok_iff, pure, Except.pure, Except.ok.injEq,
    Prod.mk.injEq] at h
  obtain ⟨_, -, rfl, rfl⟩ := h
  cases i with
  | issuer k =>
    -- another account keeps its place among the issuers
    have hk : k ≠ who := by simpa [Call.writes] using hi
    exact congrArg Reply.flag (contains_update_of_ne _ hk allowed)
  | _ => rfl

theorem read_execute_verifyAndEmit {id : UInt64} {ss : PublicSignals} {proof : Groth16.Proof.Wire}
    {policyHash nullifier : Bytes32}
    (h : c.execute o (.verifyAndEmit id ss proof policyHash nullifier) = .ok (c', es))
    (i : StorageItem) (hi : (Call.verifyAndEmit id ss proof policyHash nullifier).writes i = false) :
    c'.read i = c.read i := by
  simp only [execute, Except.bind_eq_ok_iff, Except.mapError_eq_ok_iff, pure, Except.pure,
    Except.ok.injEq, Prod.mk.injEq] at h
  obtain ⟨_, -, ⟨v, e⟩, hv, rfl, rfl⟩ := h
  obtain ⟨-, rfl⟩ := Verifier.usedNullifiers_of_present hv
  cases i with
  | usedNullifier k =>
    -- another nullifier keeps its mark
    have hk : k ≠ nullifier := by simpa [Call.writes] using hi
    simp [Verifier.useNullifier, Table.contains_insert, hk]
  | _ => rfl

theorem read_execute_setRequireIssuerAllowlist {required : Bool}
    (h : c.execute o (.setRequireIssuerAllowlist required) = .ok (c', es)) (i : StorageItem)
    (hi : (Call.setRequireIssuerAllowlist required).writes i = false) : c'.read i = c.read i := by
  simp only [execute, Except.bind_eq_ok_iff, pure, Except.pure, Except.ok.injEq,
    Prod.mk.injEq] at h
  obtain ⟨_, -, rfl, rfl⟩ := h
  cases i with
  | requireIssuerAllowlist => cases hi
  | _ => rfl

theorem read_execute_setIssuerAllowed {who : AccountId} {allowed : Bool}
    (h : c.execute o (.setIssuerAllowed who allowed) = .ok (c', es)) (i : StorageItem)
    (hi : (Call.setIssuerAllowed who allowed).writes i = false) : c'.read i = c.read i := by
  simp only [execute, Except.bind_eq_ok_iff, pure, Except.pure, Except.ok.injEq,
    Prod.mk.injEq] at h
  obtain ⟨_, -, rfl, rfl⟩ := h
  cases i with
  | allowedIssuer k =>
    -- another account keeps its place on the allowlist
    have hk : k ≠ who := by simpa [Call.writes] using hi
    exact congrArg Reply.flag (contains_update_of_ne _ hk allowed)
  | _ => rfl

theorem read_execute_setVerificationKey {key : List UInt8}
    (h : c.execute o (.setVerificationKey key) = .ok (c', es)) (i : StorageItem)
    (hi : (Call.setVerificationKey key).writes i = false) : c'.read i = c.read i := by
  simp only [execute, Except.bind_eq_ok_iff, Except.mapError_eq_ok_iff, pure, Except.pure,
    Except.ok.injEq, Prod.mk.injEq] at h
  obtain ⟨_, -, ⟨v, e⟩, hv, rfl, rfl⟩ := h
  obtain ⟨-, rfl⟩ := Verifier.setVerificationKey_eq_ok hv
  cases i with
  | verificationKey => cases hi
  | _ => rfl

/-- **The frame of a call.** A successful call changes no storage item it does not write. -/
theorem read_execute {call : Call} (h : c.execute o call = .ok (c', es)) (i : StorageItem)
    (hi : call.writes i = false) : c'.read i = c.read i := by
  cases call with
  | mint => exact read_execute_mint h i hi
  | revoke => exact read_execute_revoke h i hi
  | setOpenIssuerMode => exact read_execute_setOpenIssuerMode h i hi
  | setIssuer => exact read_execute_setIssuer h i hi
  | verifyAndEmit => exact read_execute_verifyAndEmit h i hi
  | setRequireIssuerAllowlist => exact read_execute_setRequireIssuerAllowlist h i hi
  | setIssuerAllowed => exact read_execute_setIssuerAllowed h i hi
  | setVerificationKey => exact read_execute_setVerificationKey h i hi

/-- The event log is no storage item. -/
theorem read_withEvents (c : Chain) (events : List Event) (i : StorageItem) :
    ({ c with events } : Chain).read i = c.read i := by
  cases i <;> rfl

/-- The admin check refuses every origin but the root authority and the admin account. -/
theorem ensureAdmin_of_not_admin {o : Origin} (hroot : o ≠ .root) (hadmin : o ≠ .signed admin) :
    ensureAdmin o = .error .badOrigin := by
  cases o with
  | signed who =>
    have hwho : who ≠ admin := fun h => hadmin (h ▸ rfl)
    simp [ensureAdmin, Origin.isAdmin, hwho]
  | root => exact absurd rfl hroot
  | none => rfl

/-- **Settings need the admin.** A settings call from an origin other than the root authority
and the admin account fails with `BadOrigin`. -/
theorem dispatch_of_not_admin (c : Chain) {o : Origin} {call : Call} (hcall : call.needsAdmin = true)
    (hroot : o ≠ .root) (hadmin : o ≠ .signed admin) : c.dispatch o call = .error .badOrigin := by
  have hno := ensureAdmin_of_not_admin hroot hadmin
  cases call with
  | mint | revoke | verifyAndEmit => cases hcall
  | _ => simp [dispatch, execute, hno, bind, Except.bind]

/-- **Storage frames.** On every chain, a call that succeeds leaves every storage item of the
other part as it was, and within its own part every item it does not write: a presentation
writes only its nullifier, the allowlist flag call only the flag, an allowlist call only the
entry of its account, the key call only the key, open issuing only its flag, an issuer call only
the entry of its account (so the registry's issuers and the verifier's allowlist never write
each other). A settings call of either part from an origin other than the root authority and
the admin account fails with `BadOrigin` and so changes nothing. -/
theorem storage_frames (c : Chain) (o : Origin) (call : Call) :
    (∀ c', c.dispatch o call = .ok c' →
      (∀ i, i.pallet ≠ call.pallet → c'.read i = c.read i) ∧
        ∀ i, call.writes i = false → c'.read i = c.read i) ∧
    (call.needsAdmin = true → o ≠ .root → o ≠ .signed admin →
      c.dispatch o call = .error .badOrigin) := by
  refine ⟨fun c' hc' => ?_, fun hcall hroot hadmin => dispatch_of_not_admin c hcall hroot hadmin⟩
  obtain ⟨c'', es, he, rfl⟩ := dispatch_eq_ok_iff.1 hc'
  have hframe : ∀ i, call.writes i = false → ({ c'' with events := c.events ++ es } : Chain).read i
      = c.read i := fun i hi => (read_withEvents c'' _ i).trans (read_execute he i hi)
  refine ⟨fun i hi => hframe i ?_, hframe⟩
  -- an item of the other part is never written
  cases hw : call.writes i
  · rfl
  · exact absurd (Call.pallet_of_writes hw) hi

end Chain

end ZkPolicy
