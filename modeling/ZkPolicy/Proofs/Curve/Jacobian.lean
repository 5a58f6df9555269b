import Mathlib
import ZkPolicy.Proofs.Curve.GroupLaw

/-!
# Jacobian coordinates

A triple `(X, Y, Z)` with `Z ≠ 0` stands for the affine point `(X / Z², Y / Z³)`, and a triple with
`Z = 0` for the point at infinity. Doubling and adding need no inversion in these coordinates, so
the kernel can compute long scalar multiples of a concrete point: the affine `Point.smul` inverts
at every step, by the extended Euclidean algorithm, and does not reduce there.

This module gives that arithmetic for `y² = x³ + b` and shows, through a field model, that it
computes the group law of the elliptic curve, as `GroupLaw` does for the affine arithmetic.
`TwistOrder` uses it to find the order of a point of the twist.

* `Jacobian.double`, `Jacobian.add`: the tangent and the chord, scaled so that no division is
  left; `Jacobian.smulBits width k P` is double-and-add over the `width` lowest bits of `k`,
  structural in `width`.
* `Model.RepresentsJacobian P Q`: the triple `P` stands for the point `Q` of the curve over the
  field. `RepresentsJacobian.double` and `RepresentsJacobian.add` are the simulation, one lemma
  per operation, and `RepresentsJacobian.smulBits` follows by induction on the width: the triple
  it computes stands for `(k % 2 ^ width) • Q`.
* `RepresentsJacobian.eq_zero_iff`: the triple has `Z = 0` exactly when the point it stands for is
  zero, which is what a computation of `smulBits` on a concrete point decides.
-/

namespace ZkPolicy

/-- A point in Jacobian coordinates. -/
structure Jacobian (F : Type) where
  X : F
  Y : F
  Z : F

namespace Jacobian

variable {F : Type} [ShortWeierstrass F] [DecidableEq F]

open ShortWeierstrass

/-- The point at infinity. -/
def infinity : Jacobian F := ⟨zero, zero, zero⟩

/-- **Doubling** by the tangent: with `M = 3X²` and `S = 4XY²`, the double is
`(M² - 2S, M (S - X₃) - 8Y⁴, 2YZ)`. A point with `Y = 0` doubles to `Z = 0`. -/
def double (P : Jacobian F) : Jacobian F :=
  let XX := P.X * P.X
  let YY := P.Y * P.Y
  let M := XX + XX + XX
  let XYY := P.X * YY
  let S := XYY + XYY + (XYY + XYY)
  let X₃ := M * M - S - S
  let YYYY := YY * YY
  let Y8 := YYYY + YYYY + (YYYY + YYYY) + (YYYY + YYYY + (YYYY + YYYY))
  ⟨X₃, M * (S - X₃) - Y8, (P.Y + P.Y) * P.Z⟩

/-- **Addition** by the chord. The abscissas and ordinates are compared as `U = X Z'²` and
`S = Y Z'³`: equal points double, opposite points add to infinity, and otherwise, with
`H = U₂ - U₁` and `R = S₂ - S₁`, the sum is `(R² - H³ - 2U₁H², R (U₁H² - X₃) - S₁H³, Z₁Z₂H)`. -/
def add (P Q : Jacobian F) : Jacobian F :=
  if P.Z = zero then Q
  else if Q.Z = zero then P
  else
    let Z1Z1 := P.Z * P.Z
    let Z2Z2 := Q.Z * Q.Z
    let U1 := P.X * Z2Z2
    let U2 := Q.X * Z1Z1
    let S1 := P.Y * (Q.Z * Z2Z2)
    let S2 := Q.Y * (P.Z * Z1Z1)
    if U1 = U2 then
      if S1 = S2 then double P else infinity
    else
      let H := U2 - U1
      let R := S2 - S1
      let HH := H * H
      let HHH := H * HH
      let V := U1 * HH
      let X₃ := R * R - HHH - V - V
      ⟨X₃, R * (V - X₃) - S1 * HHH, P.Z * Q.Z * H⟩

/-- **Scalar multiple** over the `width` lowest bits of `k`, most significant first: the multiple
of `k / 2` doubled, plus `P` if `k` is odd. -/
def smulBits : Nat → Nat → Jacobian F → Jacobian F
  | 0, _, _ => infinity
  | width + 1, k, P =>
    let half := double (smulBits width (k / 2) P)
    if k % 2 = 1 then add half P else half

end Jacobian

/-- The `w + 1` lowest bits of `k` are twice the `w` lowest bits of `k / 2`, plus the lowest bit
of `k`: the step of every recursion over the bits, most significant first. -/
theorem mod_two_pow_succ_halve (k w : Nat) :
    k % 2 ^ (w + 1) = k / 2 % 2 ^ w + k / 2 % 2 ^ w + k % 2 := by
  rw [pow_succ', Nat.mod_mul]
  ring

namespace ShortWeierstrass.Model

variable {F K : Type} [ShortWeierstrass F] [Field K] (M : Model F K)

theorem toField_eq_zero_iff {a : F} : M.toField a = 0 ↔ a = zero := by
  rw [← M.map_zero]
  exact M.injective.eq_iff

/-- **The triple `P` stands for the point `Q`** of the curve over the field: `Z` reads as zero and
`Q` is zero, or it does not and `Q` has the coordinates `(X / Z², Y / Z³)`, written without
division. -/
inductive RepresentsJacobian : Jacobian F → M.curve.Point → Prop
  | infinity {P : Jacobian F} : M.toField P.Z = 0 → RepresentsJacobian P 0
  | affine {P : Jacobian F} {x y : K} {h : M.curve.Nonsingular x y} :
      M.toField P.Z ≠ 0 → M.toField P.X = x * M.toField P.Z ^ 2 →
        M.toField P.Y = y * M.toField P.Z ^ 3 → RepresentsJacobian P (.some x y h)

variable {M}

/-- A triple stands for zero exactly when its `Z` is zero. -/
theorem RepresentsJacobian.eq_zero_iff {P : Jacobian F} {Q : M.curve.Point}
    (h : M.RepresentsJacobian P Q) : P.Z = zero ↔ Q = 0 := by
  cases h with
  | infinity hZ => simpa using (M.toField_eq_zero_iff).mp hZ
  | affine hZ =>
    rw [← M.toField_eq_zero_iff]
    simp [hZ, WeierstrassCurve.Affine.Point.some_ne_zero]

/-- A triple with `Z = 1` stands for the point of its coordinates. -/
theorem representsJacobian_of_Z_eq_one {P : Jacobian F} (hZ : M.toField P.Z = 1)
    (h : M.curve.Nonsingular (M.toField P.X) (M.toField P.Y)) :
    M.RepresentsJacobian P (.some _ _ h) :=
  .affine (by rw [hZ]; exact one_ne_zero) (by rw [hZ, one_pow, mul_one])
    (by rw [hZ, one_pow, mul_one])

theorem ne_zero_of_ne_negY {x y : K} (hy : y ≠ M.curve.negY x y) : y ≠ 0 := by
  rintro rfl
  exact hy (by rw [M.negY_eq, neg_zero])

variable [DecidableEq K]

/-- The tangent's slope, at a point off the abscissa axis. -/
theorem slope_self {x y : K} (hy : y ≠ M.curve.negY x y) :
    M.curve.slope x x y y = 3 * x ^ 2 / (2 * y) := by
  rw [WeierstrassCurve.Affine.slope_of_Y_ne rfl hy, M.negY_eq]
  simp only [curve]
  ring_nf

/-- **Doubling is the group's doubling.** The tangent at a point off the abscissa axis, scaled by
`Z₃ = 2YZ`; a point on the axis, or at infinity, doubles to zero. -/
theorem RepresentsJacobian.double [DecidableEq F] {P : Jacobian F} {Q : M.curve.Point}
    (h : M.RepresentsJacobian P Q) : M.RepresentsJacobian P.double (Q + Q) := by
  cases h with
  | infinity hZ =>
    rw [zero_add]
    exact .infinity (by simp only [Jacobian.double, M.map_mul, hZ, mul_zero])
  | @affine x y hxy hZ hX hY =>
    by_cases hy : y = M.curve.negY x y
    · -- a point on the abscissa axis: `Y = 0`, so `Z₃ = 0`
      rw [WeierstrassCurve.Affine.Point.add_self_of_Y_eq hy]
      have hy0 := eq_zero_of_eq_negY hy
      exact .infinity (by simp only [Jacobian.double, M.map_mul, M.map_add, hY, hy0]; ring)
    · rw [WeierstrassCurve.Affine.Point.add_self_of_Y_ne hy]
      have hy0 := ne_zero_of_ne_negY hy
      have h2 := M.two_ne_zero
      refine .affine ?_ ?_ ?_
      · simp only [Jacobian.double, M.map_mul, M.map_add, hY]
        -- `Z₃ = 2 y Z⁴`
        have e : (y * M.toField P.Z ^ 3 + y * M.toField P.Z ^ 3) * M.toField P.Z =
            2 * y * M.toField P.Z ^ 4 := by ring
        rw [e]
        exact mul_ne_zero (mul_ne_zero h2 hy0) (pow_ne_zero 4 hZ)
      · rw [M.slope_self hy]
        simp only [Jacobian.double, M.map_mul, M.map_add, M.map_sub, hX, hY,
          WeierstrassCurve.Affine.addX, curve]
        field_simp
        ring
      · rw [M.slope_self hy]
        simp only [Jacobian.double, M.map_mul, M.map_add, M.map_sub, hX, hY,
          WeierstrassCurve.Affine.addY, WeierstrassCurve.Affine.negAddY,
          WeierstrassCurve.Affine.negY, WeierstrassCurve.Affine.addX, curve]
        field_simp
        ring

/-- **Addition is the group's addition.** A side at infinity gives the other; in the field, the
comparisons `U₁ = U₂` and `S₁ = S₂` are those of the abscissas and ordinates, so equal points
double, opposite points add to zero, and the chord of distinct abscissas, scaled by
`Z₃ = Z₁Z₂H`, is Mathlib's. -/
theorem RepresentsJacobian.add [DecidableEq F] {P₁ P₂ : Jacobian F} {Q₁ Q₂ : M.curve.Point}
    (h₁ : M.RepresentsJacobian P₁ Q₁) (h₂ : M.RepresentsJacobian P₂ Q₂) :
    M.RepresentsJacobian (P₁.add P₂) (Q₁ + Q₂) := by
  unfold Jacobian.add
  by_cases hZ₁ : P₁.Z = zero
  · rw [if_pos hZ₁, h₁.eq_zero_iff.mp hZ₁, zero_add]
    exact h₂
  rw [if_neg hZ₁]
  by_cases hZ₂ : P₂.Z = zero
  · rw [if_pos hZ₂, h₂.eq_zero_iff.mp hZ₂, add_zero]
    exact h₁
  rw [if_neg hZ₂]
  cases h₁ with
  | infinity h => exact absurd (M.toField_eq_zero_iff.mp h) hZ₁
  | @affine x₁ y₁ hxy₁ hz₁ hX₁ hY₁ =>
  cases h₂ with
  | infinity h => exact absurd (M.toField_eq_zero_iff.mp h) hZ₂
  | @affine x₂ y₂ hxy₂ hz₂ hX₂ hY₂ =>
  -- the comparisons in `F` are those of the coordinates, the `Z`s being nonzero
  have hU : P₁.X * (P₂.Z * P₂.Z) = P₂.X * (P₁.Z * P₁.Z) ↔ x₁ = x₂ := by
    have hw : M.toField P₁.Z ^ 2 * M.toField P₂.Z ^ 2 ≠ 0 :=
      mul_ne_zero (pow_ne_zero 2 hz₁) (pow_ne_zero 2 hz₂)
    rw [← M.injective.eq_iff, M.map_mul, M.map_mul, M.map_mul, M.map_mul, hX₁, hX₂]
    constructor
    · intro h
      exact mul_right_cancel₀ hw (by linear_combination h)
    · rintro rfl
      ring
  have hS : P₁.Y * (P₂.Z * (P₂.Z * P₂.Z)) = P₂.Y * (P₁.Z * (P₁.Z * P₁.Z)) ↔ y₁ = y₂ := by
    have hw : M.toField P₁.Z ^ 3 * M.toField P₂.Z ^ 3 ≠ 0 :=
      mul_ne_zero (pow_ne_zero 3 hz₁) (pow_ne_zero 3 hz₂)
    simp only [← M.injective.eq_iff, M.map_mul, hY₁, hY₂]
    constructor
    · intro h
      exact mul_right_cancel₀ hw (by linear_combination h)
    · rintro rfl
      ring
  by_cases hx : x₁ = x₂
  · rw [if_pos (hU.mpr hx)]
    subst hx
    by_cases hy : y₁ = y₂
    · -- one point twice: the tangent
      rw [if_pos (hS.mpr hy)]
      subst hy
      exact (RepresentsJacobian.affine hz₁ hX₁ hY₁).double
    · -- opposite points
      rw [if_neg (mt hS.mp hy)]
      have hneg : y₁ = M.curve.negY x₁ y₂ :=
        (WeierstrassCurve.Affine.Y_eq_of_X_eq hxy₁.1 hxy₂.1 rfl).resolve_left hy
      rw [WeierstrassCurve.Affine.Point.add_of_Y_eq rfl hneg]
      exact .infinity M.map_zero
  · -- distinct abscissas: the chord, with `H = (x₂ - x₁) Z₁² Z₂²`
    rw [if_neg (mt hU.mp hx), WeierstrassCurve.Affine.Point.add_of_X_ne hx]
    have hsub : x₁ - x₂ ≠ 0 := sub_ne_zero.mpr hx
    refine .affine ?_ ?_ ?_
    · simp only [M.map_mul, M.map_sub, hX₁, hX₂]
      have e : M.toField P₁.Z * M.toField P₂.Z *
          (x₂ * M.toField P₂.Z ^ 2 * (M.toField P₁.Z * M.toField P₁.Z) -
            x₁ * M.toField P₁.Z ^ 2 * (M.toField P₂.Z * M.toField P₂.Z)) =
          -(x₁ - x₂) * (M.toField P₁.Z ^ 3 * M.toField P₂.Z ^ 3) := by ring
      rw [e]
      exact mul_ne_zero (neg_ne_zero.mpr hsub)
        (mul_ne_zero (pow_ne_zero 3 hz₁) (pow_ne_zero 3 hz₂))
    · rw [WeierstrassCurve.Affine.slope_of_X_ne hx]
      simp only [M.map_mul, M.map_sub, hX₁, hX₂, hY₁, hY₂, WeierstrassCurve.Affine.addX, curve]
      field_simp
      ring
    · rw [WeierstrassCurve.Affine.slope_of_X_ne hx]
      simp only [M.map_mul, M.map_sub, hX₁, hX₂, hY₁, hY₂, WeierstrassCurve.Affine.addY,
        WeierstrassCurve.Affine.negAddY, WeierstrassCurve.Affine.negY,
        WeierstrassCurve.Affine.addX, curve]
      field_simp
      ring

/-- **Scalar multiples are the group's multiples**: the triple computed over `width` bits stands
for `(k % 2 ^ width) • Q`. -/
theorem RepresentsJacobian.smulBits [DecidableEq F] {P : Jacobian F} {Q : M.curve.Point}
    (h : M.RepresentsJacobian P Q) (width k : Nat) :
    M.RepresentsJacobian (Jacobian.smulBits width k P) ((k % 2 ^ width) • Q) := by
  -- induction on the width; one level down the multiple is that of `k / 2`
  induction width generalizing k with
  | zero =>
    rw [pow_zero, Nat.mod_one, zero_nsmul]
    exact .infinity M.map_zero
  | succ w ih =>
    have hhalf := (ih (k / 2)).double
    have hk := mod_two_pow_succ_halve k w
    rw [Jacobian.smulBits]
    split
    · next hodd =>
      rw [hk, hodd, add_nsmul, add_nsmul, one_nsmul]
      exact hhalf.add h
    · next heven =>
      rw [hk, show k % 2 = 0 by omega, add_zero, add_nsmul]
      exact hhalf

/-- Over enough bits, the triple stands for `k • Q` itself. -/
theorem RepresentsJacobian.smulBits_of_lt [DecidableEq F] {P : Jacobian F} {Q : M.curve.Point}
    (h : M.RepresentsJacobian P Q) {width k : Nat} (hk : k < 2 ^ width) :
    M.RepresentsJacobian (Jacobian.smulBits width k P) (k • Q) := by
  simpa only [Nat.mod_eq_of_lt hk] using h.smulBits width k

end ShortWeierstrass.Model

end ZkPolicy
