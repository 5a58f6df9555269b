import ZkPolicy.Proofs.Circuit.Policy
import ZkPolicy.Proofs.Encoding.Words
import ZkPolicy.Ledger.Verifier

/-!
# What the prover hands out

A proof leaves the prover with its public signals, and the signals leave as eleven words. This
module states what the prover returns for every policy, attributes, salts and randomness, and how
the signals are laid out and written:

* `proveWith_refuses_first_failing`: the prover refuses exactly when one of the ten conditions
  on the policy and the attributes fails, with the index of the constraint at which the first
  failing one is reported; the root condition never fails, since the prover builds the circuit
  under the root the attributes commit to (`firstFailing_policyChecks_ne_root`). Otherwise it
  returns the ten policy signals followed by that root.
* `signals_layout`: writing a list of scalars refuses any length but eleven, and reading undoes
  writing; a word is refused exactly when its number is not below `r`
  (`decodeSignals_eq_none_iff`). The words of a policy's public inputs are, slot by slot, its five
  settings and five countries as 64-bit numbers (`Bytes32.ofWord`) and the root's word in slot
  ten, the slot the verifier compares (`encodeSignals_publicInputs`); and the policy signals tell
  policies apart (`Policy.signals_injective`).
-/

namespace ZkPolicy

open Circuit Groth16

/-! ### Refusal -/

/-- At the root the attributes commit to, the root condition holds: the first failing condition,
if any, is one of the ten about the policy and the attributes. -/
theorem firstFailing_policyChecks_ne_root (p : Policy) (a : Attributes) (s : Salts) :
    firstFailing (policyChecks p a s (a.commitment s)) ≠ some 2007 := by
  simp only [policyChecks, firstFailing_cons, firstFailing_nil, decide_true, if_true]
  split_ifs <;> simp

/-- **The prover never proves a failing witness.** Whatever the setup and the randomness, the
prover refuses exactly when a condition of the policy fails, with the index (in decimal in its
message) of the constraint at which the first failing condition is reported, which is never the
root's; and when every condition holds it returns a proof with the policy's ten signals followed
by the root the attributes commit to. -/
theorem proveWith_refuses_first_failing (st : Setup) (p : Policy) (a : Attributes) (s : Salts)
    (g : Generator) :
    (∀ e, proveWith st p a s g = .error e ↔
      ∃ k, e = .violated k ∧ k ≠ 2007 ∧ firstFailing (policyChecks p a s (a.commitment s)) = some k ∧
        e.message = "witness does not satisfy the policy circuit (first violation: " ++
          toString k ++ ")") ∧
    ((∃ proof, proveWith st p a s g = .ok (proof, p.signals ++ [a.commitment s])) ↔
      ∀ c ∈ policyChecks p a s (a.commitment s), c.1 = true) := by
  refine ⟨fun e => ?_, proveWith_eq_ok_iff st p a s g⟩
  constructor
  · intro h
    -- the prover's only refusal is a violation
    have hviolated : ∃ k, e = .violated k := by
      rw [proveWith.eq_1] at h
      split at h
      · cases h
        exact ⟨_, rfl⟩
      · cases h
    obtain ⟨k, rfl⟩ := hviolated
    have hfirst := (proveWith_eq_error_iff st p a s g k).1 h
    refine ⟨k, rfl, fun hk => ?_, hfirst, rfl⟩
    exact firstFailing_policyChecks_ne_root p a s (hk ▸ hfirst)
  · rintro ⟨k, rfl, -, hfirst, -⟩
    exact (proveWith_eq_error_iff st p a s g k).2 hfirst

/-! ### Words of the signals -/

/-- Public signals are refused exactly when one of their words is not below `r`. -/
theorem decodeSignals_eq_none_iff (ws : List Bytes32) :
    decodeSignals ws = none ↔ ∃ w ∈ ws, Fr.modulus ≤ Residue.leNat w.toList := by
  induction ws with
  | nil => simp [decodeSignals]
  | cons w ws ih =>
    have hcons : (∃ v ∈ w :: ws, Fr.modulus ≤ Residue.leNat v.toList) ↔
        Residue.ofBytes32? (n := Fr.modulus) w = none ∨ decodeSignals ws = none := by
      rw [ih, Residue.ofBytes32?_eq_none_iff]
      simp
    -- reading stops at the first word that fails
    rw [hcons, decodeSignals, decodeSignals, List.mapM_cons]
    cases Residue.ofBytes32? (n := Fr.modulus) w <;> cases ws.mapM Residue.ofBytes32? <;> simp

/-- Writing and reading undo each other on lists of eleven scalars. -/
theorem decodeSignals_of_encodeSignals {xs : List Fr} {ws : List Bytes32}
    (h : encodeSignals xs = .ok ws) : decodeSignals ws = some xs :=
  (decodeSignals_eq_some_iff ws xs).2 ((encodeSignals_eq_ok_iff xs ws).1 h).2

/-- Eleven words that read as scalars are what writing those scalars gives. -/
theorem encodeSignals_of_decodeSignals (ss : PublicSignals) {ys : List Fr}
    (h : decodeSignals ss.toList = some ys) : encodeSignals ys = .ok ss.toList := by
  exact (encodeSignals_eq_ok_iff ys _).2
    ⟨length_of_decodeSignals h, (decodeSignals_eq_some_iff _ _).1 h⟩

/-- The element of a word is written as the word itself, unreduced. -/
theorem toBytes32_ofWord (w : UInt64) : (Fr.ofWord w).toBytes32 = Bytes32.ofWord w := by
  simp [Residue.toBytes32, Bytes32.ofWord]

/-- The words of a policy's public inputs: the five settings and the five countries as numbers,
then the root's word. -/
theorem encodeSignals_publicInputs (p : Policy) (root : Fr) :
    encodeSignals (p.publicInputs root) =
      .ok (([p.ageCheck, p.requiredAge, p.genderCheck, p.requiredGender, p.nationalityCheck] ++
        p.allowedCountries.toList).map Bytes32.ofWord ++ [root.toBytes32]) := by
  rw [encodeSignals_eq_ok_iff]
  refine ⟨Policy.length_publicInputs p root, ?_⟩
  simp [Policy.publicInputs, Policy.signals, toBytes32_ofWord]

/-- The verifier's root slot of a policy's signal words is the root's word. -/
theorem PublicSignals.root_of_encodeSignals {p : Policy} {root : Fr} {ss : PublicSignals}
    (h : encodeSignals (p.publicInputs root) = .ok ss.toList) : ss.root = root.toBytes32 := by
  rw [encodeSignals_publicInputs, Except.ok.injEq] at h
  have hslot : ss.toList[Signal.root]? = some ss.root := by
    simp [PublicSignals.root, Vector.get]
  rw [← h] at hslot
  simpa [Signal.root] using hslot.symm

/-- Distinct policies have distinct signals. -/
theorem Policy.signals_injective : Function.Injective Policy.signals := by
  intro p q h
  -- the signals are the elements of the policy's words, and words enter the field unchanged
  have hwords : [p.ageCheck, p.requiredAge, p.genderCheck, p.requiredGender, p.nationalityCheck] ++
      p.allowedCountries.toList =
      [q.ageCheck, q.requiredAge, q.genderCheck, q.requiredGender, q.nationalityCheck] ++
        q.allowedCountries.toList := by
    have hinj : Function.Injective Fr.ofWord := fun _ _ => Fr.ofWord_inj.1
    apply List.map_injective_iff.2 hinj
    simpa [Policy.signals] using h
  obtain ⟨p₀, p₁, p₂, p₃, p₄, pc⟩ := p
  obtain ⟨q₀, q₁, q₂, q₃, q₄, qc⟩ := q
  simp only [List.cons_append, List.nil_append, List.cons.injEq, Vector.toList_inj] at hwords
  obtain ⟨rfl, rfl, rfl, rfl, rfl, rfl⟩ := hwords
  rfl

/-- **The signal layout.** Writing public signals refuses every list of scalars whose length is
not eleven, with a message that gives the length, and writes eleven scalars as words that read
back as them; eleven words are refused exactly when one of them is not below `r`, and words that
read as scalars are what writing those scalars gives. The words of a policy's public inputs are
its settings and countries, in slot order, as 64-bit numbers, and the root's word in the slot the
verifier compares. The policy signals tell policies apart. -/
theorem signals_layout :
    (∀ xs : List Fr,
      (xs.length ≠ Signal.count → encodeSignals xs = .error (.signalCount xs.length) ∧
        (ProverError.signalCount xs.length).message =
          "witness does not satisfy the policy circuit (first violation: expected 11 public " ++
            "signals, got " ++ toString xs.length ++ ")") ∧
      (xs.length = Signal.count →
        ∃ ss : PublicSignals, encodeSignals xs = .ok ss.toList ∧ decodeSignals ss.toList = some xs)) ∧
    (∀ ss : PublicSignals,
      (decodeSignals ss.toList = none ↔
        ∃ i : Fin Signal.count, Fr.modulus ≤ Residue.leNat (ss.get i).toList) ∧
      ∀ ys, decodeSignals ss.toList = some ys → encodeSignals ys = .ok ss.toList) ∧
    (∀ (p : Policy) (root : Fr),
      encodeSignals (p.publicInputs root) =
        .ok (([p.ageCheck, p.requiredAge, p.genderCheck, p.requiredGender, p.nationalityCheck] ++
          p.allowedCountries.toList).map Bytes32.ofWord ++ [root.toBytes32]) ∧
      ∀ ss : PublicSignals, encodeSignals (p.publicInputs root) = .ok ss.toList →
        ss.root = root.toBytes32) ∧
    Function.Injective Policy.signals := by
  refine ⟨fun xs => ⟨fun hlen => ?_, fun hlen => ?_⟩, fun ss => ⟨?_, fun ys => ?_⟩,
    fun p root => ⟨encodeSignals_publicInputs p root, fun ss => ?_⟩, Policy.signals_injective⟩
  · exact ⟨by simp [encodeSignals, hlen], rfl⟩
  · -- eleven scalars are written as the eleven words of a signal vector
    refine ⟨⟨(xs.map Residue.toBytes32).toArray, by simp [hlen]⟩, ?_⟩
    have hok : encodeSignals xs = .ok (xs.map Residue.toBytes32) :=
      (encodeSignals_eq_ok_iff xs _).2 ⟨hlen, rfl⟩
    simp only [Vector.toList_mk, hok, true_and]
    exact decodeSignals_of_encodeSignals hok
  · rw [decodeSignals_eq_none_iff]
    constructor
    · rintro ⟨w, hw, hge⟩
      obtain ⟨i, rfl⟩ := List.mem_iff_get.1 hw
      exact ⟨⟨i, by simpa using i.isLt⟩, by simpa [Vector.get] using hge⟩
    · rintro ⟨i, hge⟩
      exact ⟨ss.get i, by simp [Vector.get], hge⟩
  · exact encodeSignals_of_decodeSignals ss
  · exact PublicSignals.root_of_encodeSignals

end ZkPolicy
