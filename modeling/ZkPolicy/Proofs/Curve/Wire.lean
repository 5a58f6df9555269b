import ZkPolicy.Proofs.Presentation.Refinement
import ZkPolicy.Proofs.Field.Ring

/-!
# Points on the wire

A point of either group travels as its affine coordinates, each the canonical 32-byte word of an
element of the base field: `x` then `y` in the first group, and `x.c0, x.c1, y.c0, y.c1` in the
second. This module says exactly which wire forms read as points, and what they read as:

* `G1.ofWire?_eq_some_iff_coords`, `G2.ofWire?_eq_some_iff_coords`: a wire form reads as a point
  exactly when its words are the canonical words of the coordinates, in that order, and the point
  lies on the curve and, in the second group, in the subgroup of order `r`. The first group has
  no other points, so there the curve equation is the whole check.
* `G1.ofWire?_toWire_iff`, `G2.ofWire?_toWire_iff`: a valid point reads back from its wire form
  exactly when it is not the point at infinity. That point is written as zero words, which are
  refused, since `(0, 0)` lies on neither curve: both have `b ≠ 0`. On the twist `b = 3 / ξ`,
  and `G2.coeffB_c1_ne_zero` shows it is not zero by inverting the norm `82` of `ξ`, which needs
  no proof that `p` is prime (`Residue.mul_inv_cancel_of_coprime`).
* `point_wire_codecs`: all of it at once, with the consequence for proofs: a proof whose points
  are valid reads back from its wire form exactly when none of its points is at infinity.
-/

namespace ZkPolicy

namespace G1

theorem isValid_affine (x y : Fq) : isValid (.affine x y) = decide (y * y = x * x * x + 3) := rfl

/-- A wire form reads as `P` exactly when its two words are the canonical words of `x` and `y`,
`(x, y)` satisfies `y² = x³ + 3`, and `P` is that point. -/
theorem ofWire?_eq_some_iff_coords (w : Wire) (P : G1) :
    ofWire? w = some P ↔ ∃ x y : Fq, Residue.leNat w.x.toList = x.val ∧
      Residue.leNat w.y.toList = y.val ∧ y * y = x * x * x + 3 ∧ P = .affine x y := by
  simp only [ofWire?, bind, Option.bind_eq_some_iff, Residue.ofBytes32?_eq_some_iff_leNat,
    Option.ite_none_right_eq_some, isValid_affine, decide_eq_true_eq, Option.some.injEq]
  constructor
  · rintro ⟨x, hx, y, hy, hcurve, rfl⟩
    exact ⟨x, y, hx, hy, hcurve, rfl⟩
  · rintro ⟨x, y, hx, hy, hcurve, rfl⟩
    exact ⟨x, hx, y, hy, hcurve, rfl⟩

/-- What a wire form reads as is written back as that very form. -/
theorem toWire_of_ofWire? {w : Wire} {P : G1} (h : ofWire? w = some P) : P.toWire = w :=
  ((ofWire?_eq_some_iff w P).1 h).2.2.symm

/-- A valid point reads back from its wire form exactly when it is not the point at infinity. -/
theorem ofWire?_toWire_iff {P : G1} (hP : isValid P = true) :
    ofWire? P.toWire = some P ↔ P ≠ .infinity := by
  simp [ofWire?_eq_some_iff, hP]

/-- The point at infinity is written as two zero words. -/
theorem toWire_infinity : toWire .infinity = ⟨Bytes32.fill 0, Bytes32.fill 0⟩ := by decide

/-- Two zero words are refused: `(0, 0)` is not on the curve. -/
theorem ofWire?_toWire_infinity : ofWire? (toWire .infinity) = none := by decide

end G1

namespace G2

theorem isValid_affine (x y : Fq2) :
    isValid (.affine x y) =
      (decide (y * y = x * x * x + 3 * Fq2.xi⁻¹) && inSubgroup (.affine x y)) := rfl

/-- A wire form reads as `P` exactly when its four words are the canonical words of `x.c0`, `x.c1`,
`y.c0` and `y.c1`, `(x, y)` lies on the twist `y² = x³ + 3 / ξ` and in the subgroup, and `P` is
that point. -/
theorem ofWire?_eq_some_iff_coords (w : Wire) (P : G2) :
    ofWire? w = some P ↔ ∃ x y : Fq2, Residue.leNat w.x0.toList = x.c0.val ∧
      Residue.leNat w.x1.toList = x.c1.val ∧ Residue.leNat w.y0.toList = y.c0.val ∧
      Residue.leNat w.y1.toList = y.c1.val ∧ y * y = x * x * x + 3 * Fq2.xi⁻¹ ∧
      inSubgroup (.affine x y) = true ∧ P = .affine x y := by
  simp only [ofWire?, bind, Option.bind_eq_some_iff, Residue.ofBytes32?_eq_some_iff_leNat,
    Option.ite_none_right_eq_some, isValid_affine, Bool.and_eq_true, decide_eq_true_eq,
    Option.some.injEq]
  constructor
  · rintro ⟨x0, hx0, x1, hx1, y0, hy0, y1, hy1, ⟨hcurve, hsub⟩, rfl⟩
    exact ⟨⟨x0, x1⟩, ⟨y0, y1⟩, hx0, hx1, hy0, hy1, hcurve, hsub, rfl⟩
  · rintro ⟨⟨x0, x1⟩, ⟨y0, y1⟩, hx0, hx1, hy0, hy1, hcurve, hsub, rfl⟩
    exact ⟨x0, hx0, x1, hx1, y0, hy0, y1, hy1, ⟨hcurve, hsub⟩, rfl⟩

/-- What a wire form reads as is written back as that very form. -/
theorem toWire_of_ofWire? {w : Wire} {P : G2} (h : ofWire? w = some P) : P.toWire = w :=
  ((ofWire?_eq_some_iff w P).1 h).2.2.symm

/-- A valid point reads back from its wire form exactly when it is not the point at infinity. -/
theorem ofWire?_toWire_iff {P : G2} (hP : isValid P = true) :
    ofWire? P.toWire = some P ↔ P ≠ .infinity := by
  simp [ofWire?_eq_some_iff, hP]

/-- The point at infinity is written as four zero words. -/
theorem toWire_infinity :
    toWire .infinity = ⟨Bytes32.fill 0, Bytes32.fill 0, Bytes32.fill 0, Bytes32.fill 0⟩ := by
  decide

/-- The twist's coefficient `3 / ξ` is not zero: its second component is `-3 / 82`. The norm
`82` of `ξ = 9 + u` is prime to `p`, so it has an inverse, and `3 ≠ 0`. -/
theorem coeffB_c1_ne_zero : (3 * Fq2.xi⁻¹ : Fq2).c1 ≠ 0 := by
  have hnorm : Fq2.xi.norm = 82 := by decide
  have hk : (82 : Fq) * (82 : Fq)⁻¹ = 1 := Residue.mul_inv_cancel_of_coprime (by decide)
  -- the components of `3` are `3, 0`, and the second one of `ξ` is `1`
  have hc1 : (3 * Fq2.xi⁻¹ : Fq2).c1 = 3 * (-1 * Fq2.xi.norm⁻¹) + 0 * Fq2.xi⁻¹.c0 := by
    rw [Fq2.mul_c1, Fq2.inv_c1]
    rfl
  rw [hc1, hnorm]
  -- name the inverses, so that no step of the ring normaliser tries to compute them
  generalize (82 : Fq)⁻¹ = k at hk ⊢
  generalize Fq2.xi⁻¹.c0 = d
  intro h
  -- multiplying through by `82` would leave `3 = 0`
  have h3 : (3 : Fq) = 0 := by linear_combination (-82 : Fq) * h - 3 * hk
  exact absurd h3 (by decide)

/-- `(0, 0)` is not on the twist: `0 = 0 + 3 / ξ` fails in the second component. -/
theorem origin_not_on_twist :
    ¬((⟨0, 0⟩ : Fq2) * ⟨0, 0⟩ = ⟨0, 0⟩ * ⟨0, 0⟩ * ⟨0, 0⟩ + 3 * Fq2.xi⁻¹) := by
  intro h
  apply coeffB_c1_ne_zero
  have h1 := congrArg Fq2.c1 h
  have hz : ((⟨0, 0⟩ : Fq2) * ⟨0, 0⟩).c1 = 0 := by decide
  have hz3 : ((⟨0, 0⟩ : Fq2) * ⟨0, 0⟩ * ⟨0, 0⟩).c1 = 0 := by decide
  rw [Fq2.add_c1, hz, hz3] at h1
  generalize (3 * Fq2.xi⁻¹ : Fq2).c1 = c at h1 ⊢
  linear_combination -h1

/-- Four zero words are refused. They could only be read as `(0, 0)`, which is not on the
twist. The proof goes through what a form reads as, and never evaluates the subgroup check. -/
theorem ofWire?_toWire_infinity : ofWire? (toWire .infinity) = none := by
  cases h : ofWire? (toWire .infinity) with
  | none => rfl
  | some P =>
    obtain ⟨⟨x0, x1⟩, ⟨y0, y1⟩, hx0, hx1, hy0, hy1, hcurve, -, -⟩ :=
      (ofWire?_eq_some_iff_coords _ _).1 h
    -- a coordinate read from a zero word is zero
    have hzero : ∀ a : Fq, Residue.leNat (Bytes32.fill 0).toList = a.val → a = 0 := by
      rintro ⟨v, hv⟩ hread
      have hfill : Residue.leNat (Bytes32.fill 0).toList = 0 := by decide
      obtain rfl : v = 0 := hread.symm.trans hfill
      rfl
    rw [toWire_infinity] at hx0 hx1 hy0 hy1
    obtain rfl := hzero x0 hx0
    obtain rfl := hzero x1 hx1
    obtain rfl := hzero y0 hy0
    obtain rfl := hzero y1 hy1
    exact absurd hcurve origin_not_on_twist

end G2

namespace Groth16.Proof

/-- A proof whose points are valid reads back from its wire form exactly when none of its points
is the point at infinity. -/
theorem ofWire?_toWire_iff (p : Proof) (ha : G1.isValid p.a = true) (hb : G2.isValid p.b = true)
    (hc : G1.isValid p.c = true) :
    ofWire? p.toWire = some p ↔ p.a ≠ .infinity ∧ p.b ≠ .infinity ∧ p.c ≠ .infinity := by
  simp [ofWire?_eq_some_iff, WireValid, ha, hb, hc]

end Groth16.Proof

/-- **Points on the wire.** In both groups, a wire form reads as a point exactly when its words
are the canonical words of the point's coordinates, in order, and the point is on the curve (in
the second group, also in the subgroup of order `r`); it then writes back to the same form. A
valid point reads back from its form unless it is the point at infinity, which is written as zero
words and refused. So a proof of valid points survives the trip to the wire and back exactly
when none of its points is at infinity. -/
theorem point_wire_codecs :
    (∀ (w : G1.Wire) (P : G1), G1.ofWire? w = some P ↔
      ∃ x y : Fq, Residue.leNat w.x.toList = x.val ∧ Residue.leNat w.y.toList = y.val ∧
        y * y = x * x * x + 3 ∧ P = .affine x y) ∧
    (∀ (w : G1.Wire) (P : G1), G1.ofWire? w = some P → G1.toWire P = w) ∧
    (∀ P : G1, G1.isValid P = true → (G1.ofWire? (G1.toWire P) = some P ↔ P ≠ .infinity)) ∧
    G1.toWire .infinity = ⟨Bytes32.fill 0, Bytes32.fill 0⟩ ∧
    G1.ofWire? (G1.toWire .infinity) = none ∧
    (∀ (w : G2.Wire) (P : G2), G2.ofWire? w = some P ↔
      ∃ x y : Fq2, Residue.leNat w.x0.toList = x.c0.val ∧ Residue.leNat w.x1.toList = x.c1.val ∧
        Residue.leNat w.y0.toList = y.c0.val ∧ Residue.leNat w.y1.toList = y.c1.val ∧
        y * y = x * x * x + 3 * Fq2.xi⁻¹ ∧ G2.inSubgroup (.affine x y) = true ∧
        P = .affine x y) ∧
    (∀ (w : G2.Wire) (P : G2), G2.ofWire? w = some P → G2.toWire P = w) ∧
    (∀ P : G2, G2.isValid P = true → (G2.ofWire? (G2.toWire P) = some P ↔ P ≠ .infinity)) ∧
    G2.toWire .infinity = ⟨Bytes32.fill 0, Bytes32.fill 0, Bytes32.fill 0, Bytes32.fill 0⟩ ∧
    G2.ofWire? (G2.toWire .infinity) = none ∧
    ∀ p : Groth16.Proof, G1.isValid p.a = true → G2.isValid p.b = true → G1.isValid p.c = true →
      (Groth16.Proof.ofWire? p.toWire = some p ↔
        p.a ≠ .infinity ∧ p.b ≠ .infinity ∧ p.c ≠ .infinity) :=
  ⟨G1.ofWire?_eq_some_iff_coords, fun _ _ => G1.toWire_of_ofWire?,
    fun _ => G1.ofWire?_toWire_iff, G1.toWire_infinity, G1.ofWire?_toWire_infinity,
    G2.ofWire?_eq_some_iff_coords, fun _ _ => G2.toWire_of_ofWire?,
    fun _ => G2.ofWire?_toWire_iff, G2.toWire_infinity, G2.ofWire?_toWire_infinity,
    Groth16.Proof.ofWire?_toWire_iff⟩

end ZkPolicy
