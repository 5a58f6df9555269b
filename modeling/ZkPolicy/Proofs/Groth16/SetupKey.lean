import Mathlib
import ZkPolicy.Proofs.Curve.GroupLaw
import ZkPolicy.Proofs.Groth16.KeyCodec
import ZkPolicy.Proofs.Circuit.Shape
import ZkPolicy.Proofs.Curve.Wire

/-!
# The setup's points and the verifier

The verifier stores a key only if its bytes read back as a key expecting the eleven public
signals, and reading checks every point. This module shows how far the key of every seeded setup
passes those checks, and what is left.

* `Generator.retryWithin_mem`: a value kept by a retried draw has every property that each draw
  guarantees, and so does the fallback. Drawn points come from `ofX?`, so they lie on their
  curves (`G1.onCurve_sample`, `G2.onCurve_sample`, the latter through the group law since it
  is a multiple).
* `onCurve_setup`: every point of the key of every setup is a multiple of a drawn point, so it
  lies on its curve.
* `acceptsKey_policySetup_iff`: hence the verifier accepts the policy setup's key exactly when
  its three points of the second group, `[β]g₂`, `[γ]g₂`, `[δ]g₂`, pass the subgroup check
  `r • P = ∞`. The input count is right for every seed (`inputCount_policySetup`).
* `acceptsKey_policySetup_of_exponent`: the subgroup check holds for every multiple of
  `g₂ = [h]Q` as soon as `h · r` kills every point of the twist, that is as soon as the twist
  has `h · r` points. `Proofs/Curve/TwistOrder` proves that count (`G2.card_twist`), and
  `Proofs/Groth16/PolicyKey` draws the conclusions without the premise.
* `ofWire?_toWire_of_proveWith`: under the same fact, the proof the prover returns with the
  policy setup reads back from its wire form exactly when none of its points is at infinity,
  since its points are multiples of the setup's generators (`Setup.onCurve_prove`).
-/

namespace ZkPolicy

open Groth16

/-- **A value kept by a retried draw has the property of every draw**, when the fallback has it
too. -/
theorem Generator.retryWithin_mem {α : Type} {draw : Generator → Option α × Generator}
    {fallback : α} {P : α → Prop} (hdraw : ∀ g a, (draw g).1 = some a → P a)
    (hfallback : P fallback) (g : Generator) (tries : Nat) :
    P (Generator.retryWithin draw fallback g tries).1 := by
  induction tries generalizing g with
  | zero => exact hfallback
  | succ k ih =>
    rw [Generator.retryWithin]
    split
    · next a ha => exact hdraw g a ha
    · exact ih _

theorem G1.onCurve_sample (g : Generator) : (G1.sample g).1.onCurve = true :=
  Generator.retryWithin_mem (P := fun p : G1 => p.onCurve = true)
    (fun _ _ h => Point.onCurve_of_ofX? Fq.laws h) rfl g 128

theorem G2.onCurve_sampleTwistWithin (g : Generator) (tries : Nat) :
    (G2.sampleTwistWithin g tries).1.onCurve = true :=
  Generator.retryWithin_mem (P := fun p : G2 => p.onCurve = true)
    (fun _ _ h => Point.onCurve_of_ofX? Fq2.laws h) rfl g tries

theorem G2.onCurve_sample (g : Generator) : (G2.sample g).1.onCurve = true :=
  Fq2.model.onCurve_smul (G2.onCurve_sampleTwistWithin g 128) G2.cofactor

/-- Both generators of a trapdoor lie on their curves. -/
theorem Trapdoor.onCurve_sample (d : Domain) (g : Generator) :
    (Trapdoor.sample d g).1.g1.onCurve = true ∧ (Trapdoor.sample d g).1.g2.onCurve = true :=
  ⟨G1.onCurve_sample _, G2.onCurve_sample _⟩

/-- **Every point of every setup's key lies on its curve**: each is a multiple of a
generator. -/
theorem onCurve_setup (sys : Circuit.System) (seed : UInt64) :
    (setup sys seed).vk.onCurve = true := by
  obtain ⟨h1, h2⟩ := Trapdoor.onCurve_sample
    (Domain.ofMinSize (sys.numConstraints + sys.numInputs)) (Generator.ofSeed seed)
  rw [VerifyingKey.onCurve_iff]
  refine ⟨Fq.model.onCurve_smul h1 _, Fq2.model.onCurve_smul h2 _, Fq2.model.onCurve_smul h2 _,
    Fq2.model.onCurve_smul h2 _, fun p hp => ?_⟩
  -- the input points are multiples of `g₁` too
  rw [setup] at hp
  obtain ⟨i, -, rfl⟩ := List.mem_map.mp hp
  exact Fq.model.onCurve_smul h1 _

/-- **The verifier accepts the policy setup's key exactly when its points of the second group
pass the subgroup check**, for every seed. -/
theorem acceptsKey_policySetup_iff (seed : UInt64) :
    Verifier.acceptsKey (policySetup seed).vk.toBytes = true ↔
      G2.inSubgroup (policySetup seed).vk.beta = true ∧
        G2.inSubgroup (policySetup seed).vk.gamma = true ∧
        G2.inSubgroup (policySetup seed).vk.delta = true := by
  have hcurve : (policySetup seed).vk.onCurve = true := onCurve_setup _ seed
  have hlen : (policySetup seed).vk.gammaAbc.length < Nat.pow 256 8 := by
    rw [policySetup, length_gammaAbc_setup, Circuit.numInputs_policySystem]
    decide
  rw [Verifier.acceptsKey_toBytes_iff_of_onCurve hcurve hlen, inputCount_policySetup,
    eq_self_iff_true, and_true, VerifyingKey.isValid_iff_of_onCurve hcurve]

/-- A point of the twist passes the subgroup check exactly when `r` kills the point of the
elliptic curve it stands for. -/
theorem G2.inSubgroup_iff {P : G2} {Q : Fq2.model.curve.Point} (h : Fq2.model.Represents P Q) :
    G2.inSubgroup P = true ↔ Fr.modulus • Q = 0 := by
  rw [G2.inSubgroup, decide_eq_true_iff]
  exact h.smul_eq_infinity_iff Fr.modulus

/-- Every multiple of a drawn point of the second group passes the subgroup check, provided
`h · r` kills every point of the twist. -/
theorem G2.inSubgroup_smul_sample
    (hexp : ∀ Q : Fq2.model.curve.Point, (G2.cofactor * Fr.modulus) • Q = 0) (g : Generator)
    (k : Nat) : G2.inSubgroup (Point.smul k (G2.sample g).1) = true := by
  obtain ⟨Q, hQ⟩ := Fq2.model.exists_represents (G2.onCurve_sampleTwistWithin g 128)
  have hP : Fq2.model.Represents (Point.smul k (G2.sample g).1) (k • G2.cofactor • Q) :=
    (hQ.smul G2.cofactor).smul k
  have e : Fr.modulus • k • G2.cofactor • Q = k • (G2.cofactor * Fr.modulus) • Q := by
    simp only [smul_smul]
    congr 1
    ring
  rw [G2.inSubgroup_iff hP, e, hexp, smul_zero]

/-- **The setup's key is accepted for every seed if the twist has exponent dividing `h · r`.** -/
theorem acceptsKey_policySetup_of_exponent
    (hexp : ∀ Q : Fq2.model.curve.Point, (G2.cofactor * Fr.modulus) • Q = 0) (seed : UInt64) :
    Verifier.acceptsKey (policySetup seed).vk.toBytes = true :=
  (acceptsKey_policySetup_iff seed).mpr ⟨G2.inSubgroup_smul_sample hexp _ _,
    G2.inSubgroup_smul_sample hexp _ _, G2.inSubgroup_smul_sample hexp _ _⟩

/-! ### The prover's points -/

/-- The prover's three points are multiples of the setup's generators, so they lie on their
curves whenever the generators do. -/
theorem Setup.onCurve_prove (st : Setup) (sys : Circuit.System) (g : Generator)
    (h1 : st.trapdoor.g1.onCurve = true) (h2 : st.trapdoor.g2.onCurve = true) :
    G1.isValid (st.prove sys g).1.a = true ∧ (st.prove sys g).1.b.onCurve = true ∧
      G1.isValid (st.prove sys g).1.c = true :=
  ⟨Fq.model.onCurve_smul h1 _, Fq2.model.onCurve_smul h2 _, Fq.model.onCurve_smul h1 _⟩

theorem onCurve_trapdoor_setup (sys : Circuit.System) (seed : UInt64) :
    (setup sys seed).trapdoor.g1.onCurve = true ∧ (setup sys seed).trapdoor.g2.onCurve = true :=
  Trapdoor.onCurve_sample _ _

/-- A proof the prover returns is the setup's proof for the policy system. -/
theorem proof_of_proveWith {st : Setup} {p : Policy} {a : Attributes} {s : Salts} {g : Generator}
    {proof : Proof} {xs : List Fr} (h : proveWith st p a s g = .ok (proof, xs)) :
    proof = (st.prove (Circuit.policySystem p a s (a.commitment s)) g).1 := by
  revert h
  rw [proveWith.eq_1]
  -- the prover branches on the first violation of the recorded system
  cases (Circuit.policySystem p a s (a.commitment s)).firstViolation with
  | some k => simp
  | none =>
    simp only [Except.ok.injEq, Prod.mk.injEq]
    exact fun h => h.1.symm

/-- **The prover's proofs survive the wire** if `h · r` kills every point of the twist: with the
policy setup of any seed, a proof the prover returns reads back from its wire form exactly when
none of its points is the point at infinity. -/
theorem ofWire?_toWire_of_proveWith
    (hexp : ∀ Q : Fq2.model.curve.Point, (G2.cofactor * Fr.modulus) • Q = 0) {seed : UInt64}
    {p : Policy} {a : Attributes} {s : Salts} {g : Generator} {proof : Proof} {xs : List Fr}
    (h : proveWith (policySetup seed) p a s g = .ok (proof, xs)) :
    Proof.ofWire? proof.toWire = some proof ↔
      proof.a ≠ .infinity ∧ proof.b ≠ .infinity ∧ proof.c ≠ .infinity := by
  obtain rfl := proof_of_proveWith h
  obtain ⟨h1, h2⟩ := onCurve_trapdoor_setup _ seed
  obtain ⟨ha, hb, hc⟩ := Setup.onCurve_prove (policySetup seed) _ g h1 h2
  -- `B` is a multiple of the drawn `g₂`, so it passes the subgroup check
  have hsub : G2.inSubgroup ((policySetup seed).prove
      (Circuit.policySystem p a s (a.commitment s)) g).1.b = true :=
    G2.inSubgroup_smul_sample hexp _ _
  exact Proof.ofWire?_toWire_iff _ ha (Bool.and_eq_true_iff.mpr ⟨hb, hsub⟩) hc

end ZkPolicy
