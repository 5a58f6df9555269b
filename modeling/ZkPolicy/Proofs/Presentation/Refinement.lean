import ZkPolicy.Proofs.Encoding.Words
import ZkPolicy.Ledger.Verifier

/-!
# The chain's check refines Groth16 verification

The chain receives a proof as the coordinates of its three points and the public signals as
words, and checks them with `Presentation.verify`. Off the chain a proof is a triple of points
and the signals are scalars, checked by `Groth16.verify`. This module shows that the chain
accepts exactly the wire forms of proofs and signals that the off-chain check accepts, under a
key that expects eleven inputs:

* `G1.ofWire?_eq_some_iff`, `G2.ofWire?_eq_some_iff`, `Groth16.Proof.ofWire?_eq_some_iff`: a wire
  form reads as a proof exactly when it is the wire form of that proof and its points are valid
  and affine. Coordinates are read without reduction, so every coordinate word is canonical.
* `Presentation.verify_iff_groth16`: the chain accepts `(W, S)` under the key bytes `B` exactly
  when `B` reads as a key expecting eleven inputs, `W` is the wire form of a proof of valid
  affine points, `S` the words of eleven scalars, and Groth16 accepts them; the accepted wire
  forms of one proof and one list of scalars are one.
* `Presentation.verify_eq_false_of_signal_ge` and `Presentation.verify_eq_false_of_inputCount_ne`:
  a signal word whose number is not below `r`, or a key that expects another number of inputs, is
  refused.
-/

namespace ZkPolicy

namespace G1

/-- A wire form reads as `p` exactly when `p` is a valid affine point and the form is its own. -/
theorem ofWire?_eq_some_iff (w : Wire) (p : G1) :
    ofWire? w = some p ↔ p ≠ .infinity ∧ p.isValid = true ∧ w = p.toWire := by
  constructor
  · intro h
    simp only [ofWire?, bind, Option.bind_eq_some_iff] at h
    obtain ⟨x, hx, y, hy, hp⟩ := h
    by_cases hv : isValid (.affine x y) = true
    case neg => simp [hv] at hp
    simp only [hv, if_true, Option.some.injEq] at hp
    subst hp
    refine ⟨(fun h => nomatch h), hv, ?_⟩
    rw [Residue.ofBytes32?_eq_some_iff Fq.modulus_le] at hx hy
    simp [toWire, ← hx, ← hy]
  · rintro ⟨hinf, hv, rfl⟩
    cases p with
    | infinity => exact absurd rfl hinf
    | affine x y => simp [ofWire?, toWire, Residue.ofBytes32?_toBytes32 Fq.modulus_le, hv]

end G1

namespace G2

/-- A wire form reads as `p` exactly when `p` is an affine point of the subgroup and the form is
its own. -/
theorem ofWire?_eq_some_iff (w : Wire) (p : G2) :
    ofWire? w = some p ↔ p ≠ .infinity ∧ p.isValid = true ∧ w = p.toWire := by
  constructor
  · intro h
    simp only [ofWire?, bind, Option.bind_eq_some_iff] at h
    obtain ⟨x0, hx0, x1, hx1, y0, hy0, y1, hy1, hp⟩ := h
    by_cases hv : isValid (.affine ⟨x0, x1⟩ ⟨y0, y1⟩) = true
    case neg => simp [hv] at hp
    simp only [hv, if_true, Option.some.injEq] at hp
    subst hp
    refine ⟨(fun h => nomatch h), hv, ?_⟩
    rw [Residue.ofBytes32?_eq_some_iff Fq.modulus_le] at hx0 hx1 hy0 hy1
    simp [toWire, ← hx0, ← hx1, ← hy0, ← hy1]
  · rintro ⟨hinf, hv, rfl⟩
    cases p with
    | infinity => exact absurd rfl hinf
    | affine x y => simp [ofWire?, toWire, Residue.ofBytes32?_toBytes32 Fq.modulus_le, hv]

end G2

namespace Groth16.Proof

/-- The three points of a proof are valid and affine. -/
def WireValid (p : Proof) : Prop :=
  G1.isValid p.a = true ∧ G2.isValid p.b = true ∧ G1.isValid p.c = true ∧
    p.a ≠ .infinity ∧ p.b ≠ .infinity ∧ p.c ≠ .infinity

/-- **Reading a wire proof.** A wire form reads as `p` exactly when `p`'s points are valid and
affine and the form is `p`'s own. -/
theorem ofWire?_eq_some_iff (w : Wire) (p : Proof) :
    ofWire? w = some p ↔ p.WireValid ∧ w = p.toWire := by
  obtain ⟨a, b, c⟩ := p
  simp only [ofWire?, bind, pure, Option.bind_eq_some_iff, Option.some.injEq, WireValid,
    G1.ofWire?_eq_some_iff, G2.ofWire?_eq_some_iff, toWire]
  constructor
  · rintro ⟨a', ⟨ha, hva, hwa⟩, b', ⟨hb, hvb, hwb⟩, c', ⟨hc, hvc, hwc⟩, heq⟩
    cases heq
    obtain ⟨wa, wb, wc⟩ := w
    simp_all
  · rintro ⟨⟨hva, hvb, hvc, ha, hb, hc⟩, rfl⟩
    exact ⟨a, ⟨ha, hva, rfl⟩, b, ⟨hb, hvb, rfl⟩, c, ⟨hc, hvc, rfl⟩, rfl⟩

end Groth16.Proof

namespace Presentation

open Groth16

/-- The chain's check passes exactly when the key, the proof and the signals all read and the
key's input count is the number of signals, and then Groth16 decides. -/
theorem verify_eq_true_iff (B : List UInt8) (W : Proof.Wire) (ws : List Bytes32) :
    verify B W ws = true ↔
      ∃ vk p xs, VerifyingKey.ofBytes? B = some vk ∧ Proof.ofWire? W = some p ∧
        decodeSignals ws = some xs ∧ vk.inputCount = xs.length ∧ Groth16.verify vk p xs = true := by
  unfold verify
  split
  · next vk p xs hB hW hS => simp [hB, hW, hS]
  · next hnone =>
    simp only [Bool.false_eq_true, false_iff, not_exists, not_and]
    intro vk p xs hB hW hS
    exact (hnone vk p xs hB hW hS).elim

/-- **The chain's check refines Groth16 verification.** Under the key bytes `B`, the chain
accepts the wire proof `W` with the signals `S` exactly when `B` reads as a key that expects
eleven inputs, `W` is the wire form of a proof whose three points are valid and affine, `S` is
what writing eleven scalars gives, and Groth16 accepts that proof of those scalars under that
key. Decoding never reduces, so an accepted pair is the only wire form of its proof and
scalars. -/
theorem verify_iff_groth16 (B : List UInt8) (W : Proof.Wire) (S : PublicSignals) :
    (verify B W S.toList = true ↔
      ∃ vk p xs, VerifyingKey.ofBytes? B = some vk ∧ vk.inputCount = Signal.count ∧
        p.WireValid ∧ W = p.toWire ∧ encodeSignals xs = .ok S.toList ∧
        Groth16.verify vk p xs = true) ∧
    ∀ W' S', verify B W' S'.toList = true → Proof.ofWire? W' = Proof.ofWire? W →
      decodeSignals S'.toList = decodeSignals S.toList → W' = W ∧ S' = S := by
  refine ⟨⟨fun h => ?_, fun h => ?_⟩, fun W' S' h hW hS => ?_⟩
  · obtain ⟨vk, p, xs, hB, hW, hS, hcount, hv⟩ := (verify_eq_true_iff B W S.toList).1 h
    obtain ⟨hvalid, rfl⟩ := (Proof.ofWire?_eq_some_iff W p).1 hW
    rw [decodeSignals_eq_some_iff] at hS
    -- eleven words are the words of eleven scalars
    have hlen : xs.length = Signal.count := by
      rw [← List.length_map Residue.toBytes32, ← hS, Vector.length_toList]
    exact ⟨vk, p, xs, hB, hcount.trans hlen, hvalid, rfl,
      (encodeSignals_eq_ok_iff xs S.toList).2 ⟨hlen, hS⟩, hv⟩
  · obtain ⟨vk, p, xs, hB, hcount, hvalid, rfl, hS, hv⟩ := h
    obtain ⟨hlen, hS⟩ := (encodeSignals_eq_ok_iff xs S.toList).1 hS
    refine (verify_eq_true_iff B p.toWire S.toList).2 ⟨vk, p, xs, hB, ?_, ?_, ?_, hv⟩
    · exact (Proof.ofWire?_eq_some_iff p.toWire p).2 ⟨hvalid, rfl⟩
    · exact (decodeSignals_eq_some_iff S.toList xs).2 hS
    · exact hcount.trans hlen.symm
  · obtain ⟨vk, p, xs, -, hW', hS', -, -⟩ := (verify_eq_true_iff B W' S'.toList).1 h
    -- both forms read as the same proof and scalars, and each is the form of what it reads as
    rw [hW'] at hW
    rw [hS'] at hS
    have hWp := ((Proof.ofWire?_eq_some_iff W' p).1 hW').2
    have hWp' := ((Proof.ofWire?_eq_some_iff W p).1 hW.symm).2
    have hSx := (decodeSignals_eq_some_iff _ _).1 hS'
    have hSx' := (decodeSignals_eq_some_iff _ _).1 hS.symm
    exact ⟨hWp.trans hWp'.symm, Vector.toList_inj.1 (hSx.trans hSx'.symm)⟩

/-- A signal word whose number is not below `r` is refused. -/
theorem verify_eq_false_of_signal_ge (B : List UInt8) (W : Proof.Wire) (S : PublicSignals)
    {w : Bytes32} (hw : w ∈ S.toList) (hge : Fr.modulus ≤ Residue.leNat w.toList) :
    verify B W S.toList = false := by
  cases h : verify B W S.toList
  · rfl
  · obtain ⟨-, -, xs, -, -, hS, -, -⟩ := (verify_eq_true_iff B W S.toList).1 h
    exact absurd (leNat_lt_of_decodeSignals hS w hw) (Nat.not_lt.2 hge)

/-- A key that expects another number of inputs than the eleven signals is refused. -/
theorem verify_eq_false_of_inputCount_ne {B : List UInt8} {vk : VerifyingKey}
    (hB : VerifyingKey.ofBytes? B = some vk) (hcount : vk.inputCount ≠ Signal.count)
    (W : Proof.Wire) (S : PublicSignals) : verify B W S.toList = false := by
  cases h : verify B W S.toList
  · rfl
  · obtain ⟨vk', -, -, hB', hcount', -⟩ := (verify_iff_groth16 B W S).1.1 h
    rw [hB] at hB'
    cases hB'
    exact absurd hcount' hcount

end Presentation

end ZkPolicy
