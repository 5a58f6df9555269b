import ZkPolicy.Proofs.Ledger.History

/-!
# Minting

What a mint call does to the chain, case by case. The registry checks, in this order, that the
signer may mint (open issuing, or a listed issuer) and that the id counter has a next value; the
counter is a 64-bit word that never wraps, so its last value `2⁶⁴ - 1` refuses every further
mint.

* `Registry.nextId?_eq_none_iff`: the counter has no next value exactly at `2⁶⁴ - 1`.
* `Registry.mint_of_mayMint_false`, `Registry.mint_of_nextId?_none`,
  `Registry.mint_of_nextId?_some`: the three outcomes of the registry's mint.
* `mint_contract`: the whole contract. No signer, a signer who may not mint, or the last count
  each give their error; otherwise the call succeeds, the count grows by one, the new count's id
  holds the fresh credential, every other id and every other part of the state is as before, and
  one `credentialMinted` event is appended.
-/

namespace ZkPolicy

namespace Registry

/-- The counter has no next value exactly at its last value `2⁶⁴ - 1`. -/
theorem nextId?_eq_none_iff (count : UInt64) :
    nextId? count = none ↔ count.toNat = Nat.pow 2 64 - 1 := by
  have hlt : count.toNat < Nat.pow 2 64 := count.toNat_lt
  unfold nextId?
  split
  · next h => simp only [reduceCtorEq, false_iff]; omega
  · next h => simp only [true_iff]; omega

/-- A signer may not mint exactly when issuing is closed and the signer is no listed issuer. -/
theorem mayMint_eq_false_iff (r : Registry) (s : AccountId) :
    r.mayMint s = false ↔ r.openIssuerMode = false ∧ r.isIssuer s = false := by
  simp [mayMint]

section Outcomes

variable {r : Registry} {s owner : AccountId} {expiry : UInt64} {root : Bytes32}

theorem mint_of_mayMint_false (h : r.mayMint s = false) :
    r.mint s owner expiry root = .error .issuerNotAuthorized := by
  simp [mint, h]

theorem mint_of_nextId?_none (hm : r.mayMint s = true) (h : nextId? r.count = none) :
    r.mint s owner expiry root = .error .credentialIndexOverflow := by
  simp [mint, hm, h]

theorem mint_of_nextId?_some {id : UInt64} (hm : r.mayMint s = true) (h : nextId? r.count = some id) :
    r.mint s owner expiry root =
      .ok ({ r with count := id,
                    credentials := r.credentials.insert id (.issue owner s expiry root) },
           .credentialMinted id owner s expiry root) := by
  simp [mint, hm, h]

end Outcomes

end Registry

namespace Chain

/-- A mint call is the origin check, then the registry's mint, whose event is logged. -/
theorem dispatch_mint (c : Chain) (o : Origin) (owner : AccountId) (expiry : UInt64)
    (root : Bytes32) :
    c.dispatch o (.mint owner expiry root) =
      match signer o with
      | .error e => .error e
      | .ok s =>
        match c.registry.mint s owner expiry root with
        | .error e => .error (.registry e)
        | .ok (r, e) => .ok { c with registry := r, events := c.events ++ [e] } := by
  simp only [dispatch, execute]
  cases signer o with
  | error e => rfl
  | ok s =>
    simp only [bind, Except.bind]
    cases c.registry.mint s owner expiry root with
    | error e => rfl
    | ok p => rfl

end Chain

open Chain Registry in
/-- **The mint contract.** -/
theorem mint_contract (c : Chain) (o : Origin) (owner : AccountId) (expiry : UInt64)
    (root : Bytes32) :
    match o.signer? with
    | none => c.dispatch o (.mint owner expiry root) = .error .badOrigin
    | some s =>
      if c.registry.openIssuerMode = false ∧ c.registry.isIssuer s = false then
        c.dispatch o (.mint owner expiry root) = .error (.registry .issuerNotAuthorized)
      else if c.registry.count.toNat = Nat.pow 2 64 - 1 then
        c.dispatch o (.mint owner expiry root) = .error (.registry .credentialIndexOverflow)
      else
        ∃ c', c.dispatch o (.mint owner expiry root) = .ok c' ∧
          c'.registry.count.toNat = c.registry.count.toNat + 1 ∧
          (∀ k, c'.registry.credential? k =
            if k = c'.registry.count then
              some { owner, issuer := s, expiry, commitmentRoot := root, revoked := false }
            else c.registry.credential? k) ∧
          c'.registry.issuers = c.registry.issuers ∧
          c'.registry.openIssuerMode = c.registry.openIssuerMode ∧
          c'.verifier = c.verifier ∧ c'.now = c.now ∧ c'.runtime = c.runtime ∧
          c'.events = c.events ++ [.credentialMinted c'.registry.count owner s expiry root] := by
  cases hs : o.signer? with
  | none => simp [dispatch_mint, signer_eq_error hs]
  | some s =>
    dsimp only
    cases hm : c.registry.mayMint s with
    | false =>
      rw [if_pos ((mayMint_eq_false_iff _ _).1 hm)]
      simp [dispatch_mint, signer_eq_ok hs, mint_of_mayMint_false hm]
    | true =>
      have hauth : ¬(c.registry.openIssuerMode = false ∧ c.registry.isIssuer s = false) := by
        rw [← mayMint_eq_false_iff, hm]
        decide
      rw [if_neg hauth]
      cases hn : nextId? c.registry.count with
      | none =>
        rw [if_pos ((nextId?_eq_none_iff _).1 hn)]
        simp [dispatch_mint, signer_eq_ok hs, mint_of_nextId?_none hm hn]
      | some id =>
        -- a fresh id: the registry's mint succeeds, and only the registry and the log change
        have hlast : ¬c.registry.count.toNat = Nat.pow 2 64 - 1 := fun h => by
          rw [(nextId?_eq_none_iff _).2 h] at hn
          cases hn
        rw [if_neg hlast]
        have hmint := @mint_of_nextId?_some _ _ owner expiry root _ hm hn
        have hd : c.dispatch o (.mint owner expiry root) =
            .ok { c with
              registry := { c.registry with
                count := id
                credentials := c.registry.credentials.insert id (.issue owner s expiry root) }
              events := c.events ++ [.credentialMinted id owner s expiry root] } := by
          simp only [dispatch_mint, signer_eq_ok hs, hmint]
        exact ⟨_, hd, count_mint hmint, get?_mint hmint, rfl, rfl, rfl, rfl, rfl, rfl⟩

end ZkPolicy
