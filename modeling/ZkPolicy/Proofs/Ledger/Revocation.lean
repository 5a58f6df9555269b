import ZkPolicy.Ledger.Chain

/-!
# Revocation

What a revoke call does to the chain, case by case, and that revoking twice is revoking once.

* `dispatch_revoke` unfolds a revoke call into the origin check and the registry's revoke.
* `revoke_contract` is the whole contract: no signer, no credential, or a signer who is not the
  credential's stored issuer each give their error (whoever the current issuers are); otherwise
  the call succeeds, marks the credential revoked and keeps its other fields, leaves every other
  part of the state alone, appends one event exactly when the credential was not yet revoked,
  and a second revoke by the same origin succeeds and changes nothing.
-/

namespace ZkPolicy

namespace Chain

theorem signer_eq_ok {o : Origin} {s : AccountId} (h : o.signer? = some s) : signer o = .ok s := by
  simp [signer, h]

theorem signer_eq_error {o : Origin} (h : o.signer? = none) : signer o = .error .badOrigin := by
  simp [signer, h]

/-- A revoke call is the origin check, then the registry's revoke, whose events are logged. -/
theorem dispatch_revoke (c : Chain) (o : Origin) (id : UInt64) :
    c.dispatch o (.revoke id) =
      match signer o with
      | .error e => .error e
      | .ok s =>
        match c.registry.revoke s id with
        | .error e => .error (.registry e)
        | .ok (r, es) => .ok { c with registry := r, events := c.events ++ es } := by
  simp only [dispatch, execute]
  cases signer o with
  | error e => rfl
  | ok s =>
    simp only [bind, Except.bind]
    cases c.registry.revoke s id with
    | error e => rfl
    | ok p => rfl

end Chain

namespace Registry

theorem revoke_of_credential?_none {r : Registry} {s : AccountId} {id : UInt64}
    (h : r.credential? id = none) : r.revoke s id = .error .credentialNotFound := by
  simp [revoke, h]

theorem revoke_of_ne_issuer {r : Registry} {s : AccountId} {id : UInt64} {cr : Credential}
    (h : r.credential? id = some cr) (hi : cr.issuer ≠ s) : r.revoke s id = .error .notIssuer := by
  simp [revoke, h, hi]

theorem revoke_of_revoked {r : Registry} {s : AccountId} {id : UInt64} {cr : Credential}
    (h : r.credential? id = some cr) (hi : cr.issuer = s) (hr : cr.revoked = true) :
    r.revoke s id = .ok (r, []) := by
  simp [revoke, h, hi, hr]

theorem revoke_of_live {r : Registry} {s : AccountId} {id : UInt64} {cr : Credential}
    (h : r.credential? id = some cr) (hi : cr.issuer = s) (hr : cr.revoked = false) :
    r.revoke s id =
      .ok ({ r with credentials := r.credentials.insert id { cr with revoked := true } },
           [.credentialRevoked id s]) := by
  simp [revoke, h, hi, hr]

/-- After revoking a live credential, the id holds it marked revoked and every other id is as
before. -/
theorem credential?_insert (r : Registry) (id k : UInt64) (cr : Credential) :
    ({ r with credentials := r.credentials.insert id cr } : Registry).credential? k =
      if k = id then some cr else r.credential? k := by
  simp [credential?, Table.get?_insert]

end Registry

/-- Marking a revoked credential revoked changes nothing. -/
theorem Credential.revoked_update_eq_self {cr : Credential} (h : cr.revoked = true) :
    { cr with revoked := true } = cr := by
  cases cr
  cases h
  rfl

open Chain Registry in
/-- **The revoke contract.** -/
theorem revoke_contract (c : Chain) (o : Origin) (id : UInt64) :
    match o.signer?, c.registry.credential? id with
    | none, _ => c.dispatch o (.revoke id) = .error .badOrigin
    | some _, none => c.dispatch o (.revoke id) = .error (.registry .credentialNotFound)
    | some s, some cr =>
      if cr.issuer = s then
        ∃ c', c.dispatch o (.revoke id) = .ok c' ∧
          (∀ k, c'.registry.credential? k =
            if k = id then some { cr with revoked := true } else c.registry.credential? k) ∧
          c'.registry.count = c.registry.count ∧ c'.registry.issuers = c.registry.issuers ∧
          c'.registry.openIssuerMode = c.registry.openIssuerMode ∧
          c'.verifier = c.verifier ∧ c'.now = c.now ∧ c'.runtime = c.runtime ∧
          c'.events = c.events ++ (if cr.revoked then [] else [.credentialRevoked id s]) ∧
          c'.dispatch o (.revoke id) = .ok c'
      else c.dispatch o (.revoke id) = .error (.registry .notIssuer) := by
  cases hs : o.signer? with
  | none => simp [dispatch_revoke, signer_eq_error hs]
  | some s =>
    cases hc : c.registry.credential? id with
    | none => simp [dispatch_revoke, signer_eq_ok hs, revoke_of_credential?_none hc]
    | some cr =>
      dsimp only
      by_cases hi : cr.issuer = s
      · rw [if_pos hi]
        cases hr : cr.revoked
        · -- a live credential: marked revoked, one event
          let r' : Registry :=
            { c.registry with credentials := c.registry.credentials.insert id { cr with revoked := true } }
          have hd : c.dispatch o (.revoke id) =
              .ok { c with registry := r', events := c.events ++ [.credentialRevoked id s] } := by
            simp only [dispatch_revoke, signer_eq_ok hs, revoke_of_live hc hi hr]; rfl
          have hc' : r'.credential? id = some { cr with revoked := true } := by
            simp [r', credential?_insert]
          refine ⟨_, hd, fun k => credential?_insert _ _ _ _, rfl, rfl, rfl, rfl, rfl, rfl,
            by simp, ?_⟩
          simp only [dispatch_revoke, signer_eq_ok hs, revoke_of_revoked hc' hi rfl,
            List.append_nil]
        · -- an already revoked credential: nothing changes
          have hd : c.dispatch o (.revoke id) = .ok { c with events := c.events ++ [] } := by
            simp only [dispatch_revoke, signer_eq_ok hs, revoke_of_revoked hc hi hr]
          refine ⟨_, hd, fun k => ?_, rfl, rfl, rfl, rfl, rfl, rfl, by simp, ?_⟩
          · by_cases hk : k = id
            · subst hk; simp [hc, Credential.revoked_update_eq_self hr]
            · simp [hk]
          · simp only [dispatch_revoke, signer_eq_ok hs, revoke_of_revoked hc hi hr,
              List.append_nil]
      · simp [hi, dispatch_revoke, signer_eq_ok hs, revoke_of_ne_issuer hc hi]

end ZkPolicy
