import Mathlib
import ZkPolicy.Proofs.Curve.Jacobian
import ZkPolicy.Proofs.Field.Prime

/-!
# The twist has `h · r` points

The verifier's subgroup check keeps a point of the twist `E'(𝔽ₚ²) : y² = x³ + 3/ξ` only if `r`
kills it, and the setup's points of the second group are multiples of `[h]Q` for a drawn point
`Q`. They pass because the twist has exactly `h · r` points. This module proves that count with
no point counting, from one point and two bounds:

* `Model.card_point_le`: a curve over a finite field has at most `2 · |K| + 1` points, since at
  most the two ordinates `±y` share an abscissa (`Model.pointCode_injective`).
* `Model.eq_zero_of_two_nsmul`: where `x³ + b` has no root, no point has order two, for a point
  of order two lies on the abscissa axis.
* `Model.card_point_eq_of_addOrderOf`: a point of order `n` with `2 · |K| + 1 < 3n` then leaves
  room for exactly `n` points. Their number is a multiple of `n` below `3n`, and it is not `2n`,
  since a group of even order has a point of order two (Cauchy).
* `Fq2.twist_rhs_ne_zero`: over `𝔽ₚ²`, `x³ + 3/ξ` has no root, because `ξ` and `-3` differ in
  their `(p² - 1)/3`-th powers, so `-3/ξ` is no cube. The kernel computes both powers with
  `Fq2.powBits`, which stands for the field's power (`Fq2.toQuadratic_powBits`).
* `G2.addOrderOf_fullOrderPoint`: the point of abscissa one has order exactly `h · r`. The
  multiple by `h · r` is zero and the multiple by `h · r / q` is not, for each of the five primes
  `q` of `h · r`; the kernel computes the multiples in Jacobian coordinates.
* `G2.card_twist`, `G2.twist_nsmul_eq_zero`: so the twist has `h · r` points, and `h · r` kills
  every one of them.
-/

namespace ZkPolicy

open ShortWeierstrass Residue

/-! ### Counting points by their abscissas -/

namespace ShortWeierstrass.Model

variable {F K : Type} [ShortWeierstrass F] [Field K] (M : Model F K)

/-- A root of `x³ + b`, if there is one. -/
noncomputable def root (x : K) : K :=
  Classical.epsilon fun y => y * y = x * x * x + M.toField coeffB

variable {M} in
/-- The ordinate of a point is the chosen root of its abscissa or its opposite. -/
theorem eq_root_or_eq_neg_root {x y : K} (h : M.curve.Nonsingular x y) :
    y = M.root x ∨ y = -M.root x := by
  have hy : y * y = x * x * x + M.toField coeffB := (M.equation_iff x y).mp h.1
  have hroot : M.root x * M.root x = x * x * x + M.toField coeffB :=
    Classical.epsilon_spec (p := fun y => y * y = x * x * x + M.toField coeffB) ⟨y, hy⟩
  exact mul_self_eq_mul_self_iff.mp (hy.trans hroot.symm)

variable [DecidableEq K]

/-- A point as its abscissa and whether its ordinate is the chosen root. -/
noncomputable def pointCode : M.curve.Point → Option (K × Bool)
  | .zero => none
  | .some x y _ => some (x, decide (y = M.root x))

/-- Two points with one code are one point: the code keeps the abscissa, and which of `±root`
the ordinate is. -/
theorem pointCode_injective : Function.Injective M.pointCode := by
  intro P Q hPQ
  cases P with
  | zero =>
    cases Q with
    | zero => rfl
    | some => cases hPQ
  | some x₁ y₁ h₁ =>
    cases Q with
    | zero => cases hPQ
    | some x₂ y₂ h₂ =>
      simp only [pointCode, Option.some.injEq, Prod.mk.injEq, decide_eq_decide] at hPQ
      obtain ⟨rfl, hside⟩ := hPQ
      have hy : y₁ = y₂ := by
        by_cases hr : y₁ = M.root x₁
        · rw [hr, ← hside.mp hr]
        · have hr₂ : ¬y₂ = M.root x₁ := fun h => hr (hside.mpr h)
          rw [(eq_root_or_eq_neg_root h₁).resolve_left hr,
            (eq_root_or_eq_neg_root h₂).resolve_left hr₂]
      subst hy
      rfl

theorem finite_point [Finite K] : Finite M.curve.Point :=
  Finite.of_injective _ M.pointCode_injective

/-- **At most `2 · |K| + 1` points**: the point at infinity, and two per abscissa. -/
theorem card_point_le [Finite K] : Nat.card M.curve.Point ≤ 2 * Nat.card K + 1 := by
  have h := Nat.card_le_card_of_injective _ M.pointCode_injective
  simp only [Finite.card_option, Nat.card_prod, Nat.card_eq_fintype_card, Fintype.card_bool] at h
  omega

/-- **No point of order two** where `x³ + b` has no root: such a point is its own opposite, so
it lies on the abscissa axis and its abscissa is a root. -/
theorem eq_zero_of_two_nsmul (hrhs : ∀ x : K, x * x * x + M.toField coeffB ≠ 0)
    {Q : M.curve.Point} (hQ : 2 • Q = 0) : Q = 0 := by
  cases Q with
  | zero => rfl
  | @some x y h =>
    rw [two_nsmul] at hQ
    by_cases hy : y = M.curve.negY x y
    · have heq := (M.equation_iff x y).mp h.1
      rw [eq_zero_of_eq_negY hy, mul_zero] at heq
      exact absurd heq.symm (hrhs x)
    · rw [WeierstrassCurve.Affine.Point.add_self_of_Y_ne hy] at hQ
      exact absurd hQ (WeierstrassCurve.Affine.Point.some_ne_zero _)

/-- **The number of points from one point's order.** Over a finite field where `x³ + b` has no
root, a point of order `n` with `2 · |K| + 1 < 3n` leaves room for exactly `n` points. -/
theorem card_point_eq_of_addOrderOf [Finite K]
    (hrhs : ∀ x : K, x * x * x + M.toField coeffB ≠ 0) {G : M.curve.Point} {n : Nat}
    (hG : addOrderOf G = n) (hn : 2 * Nat.card K + 1 < 3 * n) :
    Nat.card M.curve.Point = n := by
  have := M.finite_point
  have hpos : 0 < Nat.card M.curve.Point := Nat.card_pos
  -- the number of points is a multiple `n · k` of the order, with `k < 3`
  obtain ⟨k, hk⟩ : n ∣ Nat.card M.curve.Point := hG ▸ addOrderOf_dvd_natCard G
  have hk3 : k < 3 := by
    have hle := M.card_point_le
    rw [hk] at hle
    have hlt : n * k < n * 3 := by
      rw [mul_comm n 3]
      exact lt_of_le_of_lt hle hn
    exact Nat.lt_of_mul_lt_mul_left hlt
  interval_cases k
  · omega
  · rw [hk, mul_one]
  · -- an even number of points would give a point of order two
    obtain ⟨Q, hQ⟩ := exists_prime_addOrderOf_dvd_card' 2 (Dvd.intro_left n hk.symm)
    have h0 := M.eq_zero_of_two_nsmul hrhs (hQ ▸ addOrderOf_nsmul_eq_zero Q)
    rw [h0, addOrderOf_zero] at hQ
    exact absurd hQ (by decide)

end ShortWeierstrass.Model

/-! ### No point of order two on the twist -/

namespace Fq2

/-- `a ^ k` by squaring over the `width` lowest bits of `k`, most significant first; structural
in `width`, so the kernel evaluates it. -/
def powBits : Nat → Nat → Fq2 → Fq2
  | 0, _, _ => 1
  | width + 1, k, a =>
    let half := powBits width (k / 2) a
    if k % 2 = 1 then half * half * a else half * half

@[simp] theorem toQuadratic_one : toQuadratic 1 = 1 := by
  rw [show (1 : Fq2) = ofFq 1 from rfl, toQuadratic_ofFq, toZMod_one]
  rfl

/-- The power computed over `width` bits is the field's power by `k % 2 ^ width`. -/
theorem toQuadratic_powBits (width k : Nat) (a : Fq2) :
    toQuadratic (powBits width k a) = toQuadratic a ^ (k % 2 ^ width) := by
  induction width generalizing k with
  | zero => rw [powBits, toQuadratic_one, pow_zero, Nat.mod_one, pow_zero]
  | succ w ih =>
    rw [powBits, mod_two_pow_succ_halve k w]
    split
    · next hodd =>
      rw [toQuadratic_mul, toQuadratic_mul, ih, hodd, pow_add, pow_add, pow_one]
    · next heven =>
      rw [toQuadratic_mul, ih, show k % 2 = 0 by omega, add_zero, pow_add]

instance : Finite Quadratic := Finite.of_equiv _ (QuadraticAlgebra.equivProd _ _).symm

theorem card_quadratic : Nat.card Quadratic = Fq.modulus * Fq.modulus := by
  rw [Nat.card_congr (QuadraticAlgebra.equivProd _ _), Nat.card_prod, Nat.card_zmod]

theorem toQuadratic_xi_ne_zero : toQuadratic xi ≠ 0 := by
  -- `ξ = 9 + u`: its `u`-part is one
  intro h
  have him : toZMod (1 : Fq) = 0 := by
    have := congrArg QuadraticAlgebra.im h
    rwa [QuadraticAlgebra.im_zero] at this
  rw [toZMod_one] at him
  exact one_ne_zero him

/-- The twist's coefficient is `3 / ξ`. -/
theorem toField_coeffB : model.toField coeffB = toQuadratic 3 * (toQuadratic xi)⁻¹ := by
  show toQuadratic (3 * xi⁻¹) = _
  rw [toQuadratic_mul, toQuadratic_inv]

/-- The exponent of the cubic residue test: `3 · e = p² - 1`. -/
def cubeExponent : Nat := (Fq.modulus * Fq.modulus - 1) / 3

/-- **`x³ + 3/ξ` has no root in `𝔽ₚ²`.** A root makes `-3 = ξ x³`; raising to `e = (p² - 1)/3`
kills `x³`, so `ξ` and `-3` would share their `e`-th powers, which they do not. -/
theorem twist_rhs_ne_zero (x : Quadratic) : x * x * x + model.toField coeffB ≠ 0 := by
  intro h
  have hpowers : powBits 512 cubeExponent xi ≠ powBits 512 cubeExponent (-3) := by decide +kernel
  have he : cubeExponent < 2 ^ 512 := by decide +kernel
  rw [ne_eq, ← toQuadratic_injective.eq_iff, toQuadratic_powBits, toQuadratic_powBits,
    Nat.mod_eq_of_lt he, toQuadratic_neg] at hpowers
  have hb : toQuadratic 3 * (toQuadratic xi)⁻¹ ≠ 0 := by
    rw [← toField_coeffB]
    exact model.coeffB_ne_zero
  rw [toField_coeffB] at h
  have hξ := toQuadratic_xi_ne_zero
  generalize toQuadratic xi = ξ at h hξ hb hpowers
  generalize toQuadratic 3 = t at h hb hpowers
  have hx : x ≠ 0 := by
    rintro rfl
    exact hb (by simpa using h)
  have hcube : ξ * (x * x * x) = -t := by
    field_simp at h
    linear_combination h
  -- `x ^ (3e) = x ^ (p² - 1) = 1`
  have hunit : (x * x * x) ^ cubeExponent = 1 := by
    have := Fintype.ofFinite Quadratic
    have hcard : Fintype.card Quadratic - 1 = 3 * cubeExponent := by
      rw [← Nat.card_eq_fintype_card, card_quadratic]
      decide
    rw [← pow_three', ← pow_mul, ← hcard]
    exact FiniteField.pow_card_sub_one_eq_one x hx
  apply hpowers
  calc ξ ^ cubeExponent
      _ = ξ ^ cubeExponent * (x * x * x) ^ cubeExponent := by rw [hunit, mul_one]
      _ = (-t) ^ cubeExponent := by rw [← mul_pow, hcube]

end Fq2

/-! ### A point of full order -/

namespace G2

open Fq2

/-- The point of the twist with abscissa one, in Jacobian coordinates with `Z = 1`. -/
def fullOrderPoint : Jacobian Fq2 :=
  ⟨⟨1, 0⟩, ⟨18278151005453108793778860132295291098363647455926340152056652516292830556603,
    5912654199736721486680175016176231956195085055698687135131307249486702594212⟩, 1⟩

theorem nonsingular_fullOrderPoint :
    Fq2.model.curve.Nonsingular (toQuadratic fullOrderPoint.X) (toQuadratic fullOrderPoint.Y) := by
  have hcomp : xi * (fullOrderPoint.Y * fullOrderPoint.Y -
      fullOrderPoint.X * fullOrderPoint.X * fullOrderPoint.X) = 3 := by decide +kernel
  rw [← WeierstrassCurve.Affine.equation_iff_nonsingular_of_Δ_ne_zero Fq2.model.Δ_ne_zero,
    Fq2.model.equation_iff, toField_coeffB]
  have h := congrArg toQuadratic hcomp
  simp only [toQuadratic_mul, toQuadratic_sub] at h
  have hξ := toQuadratic_xi_ne_zero
  generalize toQuadratic xi = ξ at h hξ ⊢
  generalize toQuadratic fullOrderPoint.X = x at h ⊢
  generalize toQuadratic fullOrderPoint.Y = y at h ⊢
  field_simp
  linear_combination h

/-- The point of abscissa one, as a point of the twist. -/
def fullOrderPointQ : Fq2.model.curve.Point := .some _ _ nonsingular_fullOrderPoint

/-- `h · r` is the product of its five primes, each once. -/
theorem cofactor_mul_modulus : cofactor * Fr.modulus = (Fr.modulus :: cofactorPrimes).prod := by
  decide

/-- The primes of `h · r` are the four of `h` and `r`. -/
theorem mem_of_prime_dvd {q : Nat} (hq : q.Prime) (hdvd : q ∣ cofactor * Fr.modulus) :
    q ∈ Fr.modulus :: cofactorPrimes := by
  rw [cofactor_mul_modulus] at hdvd
  -- a prime dividing a product of primes is one of them
  obtain ⟨f, hf, hqf⟩ := (Prime.dvd_prod_iff hq.prime).mp hdvd
  have hfprime : f.Prime := by
    rcases List.mem_cons.mp hf with rfl | hf
    · exact Fr.modulus_prime
    · exact prime_of_mem_cofactorPrimes hf
  rwa [(Nat.prime_dvd_prime_iff_eq hq hfprime).mp hqf]

/-- **The point of abscissa one has order `h · r`.** The kernel computes the multiples of its
Jacobian form: `h · r` gives `Z = 0`, and `h · r / q` does not, for each prime `q`. -/
theorem addOrderOf_fullOrderPoint : addOrderOf fullOrderPointQ = cofactor * Fr.modulus := by
  have hrep : Fq2.model.RepresentsJacobian fullOrderPoint fullOrderPointQ :=
    ShortWeierstrass.Model.representsJacobian_of_Z_eq_one toQuadratic_one
      nonsingular_fullOrderPoint
  have hmul (k : Nat) (hk : k < 2 ^ 512) :
      (Jacobian.smulBits 512 k fullOrderPoint).Z = zero ↔ k • fullOrderPointQ = 0 :=
    (hrep.smulBits_of_lt hk).eq_zero_iff
  refine addOrderOf_eq_of_nsmul_and_div_prime_nsmul (by decide) ?_ fun q hq hdvd => ?_
  · exact (hmul _ (by decide +kernel)).mp (by decide +kernel)
  · have hk : cofactor * Fr.modulus / q < 2 ^ 512 :=
      lt_of_le_of_lt (Nat.div_le_self _ q) (by decide +kernel)
    rw [ne_eq, ← hmul _ hk]
    have hq' := mem_of_prime_dvd hq hdvd
    simp only [cofactorPrimes, List.mem_cons, List.not_mem_nil, or_false] at hq'
    rcases hq' with rfl | rfl | rfl | rfl | rfl <;> decide +kernel

/-- **The twist has `h · r` points.** -/
theorem card_twist : Nat.card Fq2.model.curve.Point = cofactor * Fr.modulus :=
  Fq2.model.card_point_eq_of_addOrderOf twist_rhs_ne_zero addOrderOf_fullOrderPoint
    (by rw [card_quadratic]; decide)

/-- **`h · r` kills every point of the twist.** -/
theorem twist_nsmul_eq_zero (Q : Fq2.model.curve.Point) : (cofactor * Fr.modulus) • Q = 0 := by
  rw [← card_twist]
  exact card_nsmul_eq_zero'

end G2

end ZkPolicy
