import Mathlib
import ZkPolicy.Bn254.G1
import ZkPolicy.Bn254.G2
import ZkPolicy.Proofs.Field.SquareRoot

/-!
# The curve arithmetic is the group law of an elliptic curve

`Point.add`, `Point.double` and `Point.smul` compute in affine coordinates by the chord and the
tangent. This module shows that they compute the group law of Mathlib's elliptic curves. Read
through an injective map into a field, every point on the curve stands for a point of
`y² = x³ + b` over that field; the sum, the double and every multiple of points stand for the sum,
the double and the multiple of what they stand for.

* `ShortWeierstrass.Model F K`: an injective map of `F` into a field `K` of characteristic
  neither two nor three that carries the arithmetic and sends `b` to a nonzero element. Then
  `y² = x³ + b` is an elliptic curve over `K` (`Model.curve`), and each of its affine points is
  nonsingular.
* `Model.Represents P Q`: the point `P` stands for the point `Q` of the curve over `K`.
  `Represents.add`, `Represents.double` and `Represents.smul` are the simulation, one lemma per
  operation.
* `Model.onCurve_add`, `Model.onCurve_smul`: so the arithmetic never leaves the curve; and
  `Represents.smul_eq_infinity_iff`: a multiple is the point at infinity exactly when the same
  multiple of the point it stands for is zero.
* `Fq.model`, `Fq2.model`: both coordinate fields of the library are models, in `ZMod p` and in
  Mathlib's `𝔽ₚ[u] / (u² + 1)`.
-/

namespace ZkPolicy

open ShortWeierstrass Residue

/-- **A field model of a coordinate field**: an injective map into a field of characteristic
neither two nor three that carries the arithmetic, under which the coefficient `b` is not zero. -/
structure ShortWeierstrass.Model (F : Type) [ShortWeierstrass F] (K : Type) [Field K] where
  toField : F → K
  injective : Function.Injective toField
  map_zero : toField zero = 0
  map_add : ∀ a b : F, toField (a + b) = toField a + toField b
  map_sub : ∀ a b : F, toField (a - b) = toField a - toField b
  map_mul : ∀ a b : F, toField (a * b) = toField a * toField b
  map_neg : ∀ a : F, toField (-a) = -toField a
  map_inv : ∀ a : F, toField a⁻¹ = (toField a)⁻¹
  two_ne_zero : (2 : K) ≠ 0
  three_ne_zero : (3 : K) ≠ 0
  coeffB_ne_zero : toField coeffB ≠ 0

namespace ShortWeierstrass.Model

variable {F K : Type} [ShortWeierstrass F] [Field K] (M : Model F K)

/-- The curve `y² = x³ + b` over the field. -/
def curve : WeierstrassCurve.Affine K :=
  { a₁ := 0, a₂ := 0, a₃ := 0, a₄ := 0, a₆ := M.toField coeffB }

theorem equation_iff (x y : K) : M.curve.Equation x y ↔ y * y = x * x * x + M.toField coeffB := by
  rw [WeierstrassCurve.Affine.equation_iff]
  simp only [curve, zero_mul, add_zero]
  constructor <;> intro h <;> linear_combination h

theorem negY_eq (x y : K) : M.curve.negY x y = -y := by
  simp [WeierstrassCurve.Affine.negY, curve]

variable {M} in
/-- A point on the abscissa axis has ordinate zero: `y = -y` forces it outside characteristic
two. -/
theorem eq_zero_of_eq_negY {x y : K} (hy : y = M.curve.negY x y) : y = 0 := by
  rw [M.negY_eq] at hy
  exact (mul_eq_zero.mp (by linear_combination hy : (2 : K) * y = 0)).resolve_left M.two_ne_zero

/-- The discriminant is `-432 b²`, nonzero in characteristic neither two nor three. -/
theorem Δ_ne_zero : M.curve.Δ ≠ 0 := by
  have hΔ : M.curve.Δ = -(2 ^ 4 * 3 ^ 3 * M.toField coeffB ^ 2) := by
    simp only [WeierstrassCurve.Δ, WeierstrassCurve.b₂, WeierstrassCurve.b₄, WeierstrassCurve.b₆,
      WeierstrassCurve.b₈, curve]
    ring
  rw [hΔ, neg_ne_zero]
  exact mul_ne_zero (mul_ne_zero (pow_ne_zero 4 M.two_ne_zero) (pow_ne_zero 3 M.three_ne_zero))
    (pow_ne_zero 2 M.coeffB_ne_zero)

theorem toField_rhs (x : F) :
    M.toField (Point.rhs x) = M.toField x * M.toField x * M.toField x + M.toField coeffB := by
  rw [Point.rhs, M.map_add, M.map_mul, M.map_mul]

/-- A pair of coordinates read in the field is a nonsingular point exactly when it satisfies the
curve equation in `F`. -/
theorem nonsingular_iff {x y : F} :
    M.curve.Nonsingular (M.toField x) (M.toField y) ↔ y * y = Point.rhs x := by
  rw [← WeierstrassCurve.Affine.equation_iff_nonsingular_of_Δ_ne_zero M.Δ_ne_zero, M.equation_iff,
    ← M.map_mul, ← M.toField_rhs]
  exact M.injective.eq_iff

/-- **`P` stands for the point `Q` of the curve over the field**: both are at infinity, or `Q` has
the coordinates of `P` read in the field. -/
inductive Represents : Point F → M.curve.Point → Prop
  | infinity : Represents .infinity 0
  | affine {x y : F} {x' y' : K} {h : M.curve.Nonsingular x' y'} :
      M.toField x = x' → M.toField y = y' → Represents (.affine x y) (.some x' y' h)

variable {M}

theorem Represents.onCurve [DecidableEq F] {P : Point F} {Q : M.curve.Point}
    (h : M.Represents P Q) : P.onCurve = true := by
  cases h with
  | infinity => rfl
  | affine hx hy =>
    next h =>
    subst hx hy
    simpa [Point.onCurve] using M.nonsingular_iff.mp h

theorem Represents.eq_infinity_iff {P : Point F} {Q : M.curve.Point} (h : M.Represents P Q) :
    P = .infinity ↔ Q = 0 := by
  cases h with
  | infinity => simp
  | affine => simp [WeierstrassCurve.Affine.Point.some_ne_zero]

variable (M)

/-- Every point on the curve stands for a point of the curve over the field. -/
theorem exists_represents [DecidableEq F] {P : Point F} (hP : P.onCurve = true) :
    ∃ Q, M.Represents P Q := by
  cases P with
  | infinity => exact ⟨0, .infinity⟩
  | affine x y =>
    have h : M.curve.Nonsingular (M.toField x) (M.toField y) :=
      M.nonsingular_iff.mpr (by simpa [Point.onCurve] using hP)
    exact ⟨.some _ _ h, .affine rfl rfl⟩

/-- The chord of slope `m` through `(x₁, y₁)` and a point of abscissa `x₂` stands for Mathlib's
sum, whenever `m` is read as the slope Mathlib uses. -/
theorem represents_chord {m x₁ y₁ x₂ : F} {ℓ : K}
    {h : M.curve.Nonsingular (M.curve.addX (M.toField x₁) (M.toField x₂) ℓ)
      (M.curve.addY (M.toField x₁) (M.toField x₂) (M.toField y₁) ℓ)}
    (hm : M.toField m = ℓ) : M.Represents (Point.chord m x₁ y₁ x₂) (.some _ _ h) := by
  refine .affine ?_ ?_
  · simp only [M.map_sub, M.map_mul, hm, WeierstrassCurve.Affine.addX, curve]
    ring
  · simp only [M.map_sub, M.map_mul, hm, WeierstrassCurve.Affine.addY,
      WeierstrassCurve.Affine.negY, WeierstrassCurve.Affine.negAddY,
      WeierstrassCurve.Affine.addX, curve]
    ring

variable [DecidableEq F] [DecidableEq K]

/-- **Doubling is the group's doubling.** A point with `y = 0` has a vertical tangent and
doubles to zero; otherwise the tangent's slope `3x² / 2y` is Mathlib's. -/
theorem represents_double_affine {x y : F} {h : M.curve.Nonsingular (M.toField x) (M.toField y)} :
    M.Represents (Point.double (.affine x y)) (.some _ _ h + .some _ _ h) := by
  by_cases hy : y = zero
  · -- the vertical tangent
    have hneg : M.toField y = M.curve.negY (M.toField x) (M.toField y) := by
      rw [M.negY_eq, hy, M.map_zero, neg_zero]
    rw [WeierstrassCurve.Affine.Point.add_self_of_Y_eq hneg, Point.double, if_pos hy]
    exact .infinity
  · have hy' : M.toField y ≠ M.curve.negY (M.toField x) (M.toField y) := by
      intro h2
      have h0 : M.toField y = M.toField zero := by
        rw [M.map_zero]
        exact eq_zero_of_eq_negY h2
      exact hy (M.injective h0)
    rw [WeierstrassCurve.Affine.Point.add_self_of_Y_ne hy', Point.double, if_neg hy]
    refine M.represents_chord ?_
    rw [WeierstrassCurve.Affine.slope_of_Y_ne rfl hy', M.negY_eq]
    simp only [M.map_mul, M.map_inv, M.map_add, curve]
    ring

/-- **Addition is the group's addition** for two affine points: the chord for distinct
abscissas, the tangent for equal points, and zero for opposite points. -/
theorem represents_add_affine {x₁ y₁ x₂ y₂ : F}
    {h₁ : M.curve.Nonsingular (M.toField x₁) (M.toField y₁)}
    {h₂ : M.curve.Nonsingular (M.toField x₂) (M.toField y₂)} :
    M.Represents ((Point.affine x₁ y₁).add (.affine x₂ y₂)) (.some _ _ h₁ + .some _ _ h₂) := by
  by_cases hx : x₁ = x₂
  · subst hx
    by_cases hy : y₁ = y₂
    · -- one point twice: the tangent
      subst hy
      rw [Point.add, if_pos rfl, if_pos rfl]
      exact M.represents_double_affine
    · -- same abscissa, other ordinate: the opposite point
      have hneg : M.toField y₁ = M.curve.negY (M.toField x₁) (M.toField y₂) :=
        (WeierstrassCurve.Affine.Y_eq_of_X_eq h₁.1 h₂.1 rfl).resolve_left
          (fun h => hy (M.injective h))
      rw [WeierstrassCurve.Affine.Point.add_of_Y_eq rfl hneg, Point.add, if_pos rfl, if_neg hy]
      exact .infinity
  · -- distinct abscissas: the chord
    have hx' : M.toField x₁ ≠ M.toField x₂ := fun h => hx (M.injective h)
    have hsub : M.toField x₂ - M.toField x₁ ≠ 0 := sub_ne_zero.mpr (Ne.symm hx')
    rw [WeierstrassCurve.Affine.Point.add_of_X_ne hx', Point.add, if_neg hx]
    refine M.represents_chord ?_
    rw [WeierstrassCurve.Affine.slope_of_X_ne hx', M.map_mul, M.map_inv, M.map_sub, M.map_sub]
    field_simp
    ring

variable {M}

theorem Represents.add {P₁ P₂ : Point F} {Q₁ Q₂ : M.curve.Point} (h₁ : M.Represents P₁ Q₁)
    (h₂ : M.Represents P₂ Q₂) : M.Represents (P₁.add P₂) (Q₁ + Q₂) := by
  cases h₁ with
  | infinity => simpa [Point.add] using h₂
  | affine hx₁ hy₁ =>
    cases h₂ with
    | infinity =>
      rw [add_zero]
      exact .affine hx₁ hy₁
    | affine hx₂ hy₂ =>
      subst hx₁ hy₁ hx₂ hy₂
      exact M.represents_add_affine

theorem double_eq_add_self (P : Point F) : P.double = P.add P := by
  cases P with
  | infinity => rfl
  | affine x y => rw [Point.add, if_pos rfl, if_pos rfl]

theorem Represents.double {P : Point F} {Q : M.curve.Point} (h : M.Represents P Q) :
    M.Represents P.double (Q + Q) := by
  rw [double_eq_add_self]
  exact h.add h

/-- **Scalar multiples are the group's multiples**: double-and-add over the bits of `k`
computes `k • Q`. -/
theorem Represents.smul {P : Point F} {Q : M.curve.Point} (h : M.Represents P Q) (k : Nat) :
    M.Represents (Point.smul k P) (k • Q) := by
  -- the recursion halves `k`; the invariant is that `smul (k / 2) P` stands for `(k / 2) • Q`
  induction k using Nat.strong_induction_on with
  | _ k ih =>
    rw [Point.smul]
    split
    · next hk =>
      subst hk
      rw [zero_nsmul]
      exact .infinity
    · next hk =>
      have hhalf := (ih (k / 2) (Nat.div_lt_self (Nat.pos_of_ne_zero hk) (by decide))).double
      split
      · next hodd =>
        have e : k • Q = (k / 2) • Q + (k / 2) • Q + Q := by
          rw [← add_nsmul, ← succ_nsmul]
          congr 1
          omega
        rw [e]
        exact hhalf.add h
      · next heven =>
        have e : k • Q = (k / 2) • Q + (k / 2) • Q := by
          rw [← add_nsmul]
          congr 1
          omega
        rw [e]
        exact hhalf

/-- A multiple is the point at infinity exactly when the same multiple of the point it stands
for is zero. -/
theorem Represents.smul_eq_infinity_iff {P : Point F} {Q : M.curve.Point} (h : M.Represents P Q)
    (k : Nat) : Point.smul k P = .infinity ↔ k • Q = 0 :=
  (h.smul k).eq_infinity_iff

variable (M)

include M in
/-- **The arithmetic stays on the curve**: a sum of points on the curve is on the curve. -/
theorem onCurve_add {P₁ P₂ : Point F} (h₁ : P₁.onCurve = true) (h₂ : P₂.onCurve = true) :
    (P₁.add P₂).onCurve = true := by
  obtain ⟨Q₁, hQ₁⟩ := M.exists_represents h₁
  obtain ⟨Q₂, hQ₂⟩ := M.exists_represents h₂
  exact (hQ₁.add hQ₂).onCurve

include M in
/-- Every multiple of a point on the curve is on the curve. -/
theorem onCurve_smul {P : Point F} (hP : P.onCurve = true) (k : Nat) :
    (Point.smul k P).onCurve = true := by
  obtain ⟨Q, hQ⟩ := M.exists_represents hP
  exact (hQ.smul k).onCurve

end ShortWeierstrass.Model

theorem Fq.three_ne_zero : (3 : ZMod Fq.modulus) ≠ 0 := by decide +kernel

theorem Fq.toZMod_three : toZMod (3 : Fq) = 3 := by
  rw [show (3 : Fq) = Residue.ofNat Fq.modulus 3 from rfl, toZMod_ofNat, Nat.cast_ofNat]

/-- The base field is modelled by `ZMod p`. -/
def Fq.model : Model Fq (ZMod Fq.modulus) where
  toField := toZMod
  injective := toZMod_injective
  map_zero := toZMod_zero
  map_add := toZMod_add
  map_sub := toZMod_sub
  map_mul := toZMod_mul
  map_neg := toZMod_neg
  map_inv := toZMod_inv
  two_ne_zero := Fq.two_ne_zero
  three_ne_zero := Fq.three_ne_zero
  coeffB_ne_zero := by
    show toZMod (3 : Fq) ≠ 0
    rw [Fq.toZMod_three]
    exact Fq.three_ne_zero

namespace Fq2

@[simp] theorem toQuadratic_add (a b : Fq2) :
    toQuadratic (a + b) = toQuadratic a + toQuadratic b := by
  ext
  · rw [QuadraticAlgebra.re_add]
    exact toZMod_add a.c0 b.c0
  · rw [QuadraticAlgebra.im_add]
    exact toZMod_add a.c1 b.c1

@[simp] theorem toQuadratic_sub (a b : Fq2) :
    toQuadratic (a - b) = toQuadratic a - toQuadratic b := by
  ext
  · rw [QuadraticAlgebra.re_sub]
    exact toZMod_sub a.c0 b.c0
  · rw [QuadraticAlgebra.im_sub]
    exact toZMod_sub a.c1 b.c1

theorem toQuadratic_ofFq (a : Fq) : toQuadratic (ofFq a) = ⟨toZMod a, 0⟩ := by
  rw [toQuadratic, ofFq, toZMod_zero]

@[simp] theorem toQuadratic_zero : toQuadratic 0 = 0 := by
  rw [show (0 : Fq2) = ofFq 0 from rfl, toQuadratic_ofFq, toZMod_zero]
  rfl

/-- The inverse `conj a / norm a` of `Fq2` is the field's inverse, zero going to zero. -/
@[simp] theorem toQuadratic_inv (a : Fq2) : toQuadratic a⁻¹ = (toQuadratic a)⁻¹ := by
  have hnorm : toZMod a.norm = QuadraticAlgebra.norm (toQuadratic a) := by
    rw [Fq2.norm, toZMod_add, toZMod_mul, toZMod_mul, QuadraticAlgebra.norm_def]
    simp only [toQuadratic]
    ring
  ext
  · show toZMod (a.c0 * a.norm⁻¹) = _
    rw [toZMod_mul, toZMod_inv, hnorm, QuadraticAlgebra.re_inv]
    simp only [toQuadratic]
    ring
  · show toZMod (-a.c1 * a.norm⁻¹) = _
    rw [toZMod_mul, toZMod_neg, toZMod_inv, hnorm, QuadraticAlgebra.im_inv]
    simp only [toQuadratic]
    ring

theorem re_ne_zero {a : Quadratic} (h : a.re ≠ 0) : a ≠ 0 :=
  fun h0 => h (by rw [h0, QuadraticAlgebra.re_zero])

end Fq2

/-- The quadratic extension is modelled by Mathlib's `𝔽ₚ[u] / (u² + 1)`, in which the twist's
coefficient `3 / ξ` is not zero. -/
def Fq2.model : Model Fq2 Fq2.Quadratic where
  toField := Fq2.toQuadratic
  injective := Fq2.toQuadratic_injective
  map_zero := Fq2.toQuadratic_zero
  map_add := Fq2.toQuadratic_add
  map_sub := Fq2.toQuadratic_sub
  map_mul := Fq2.toQuadratic_mul
  map_neg := Fq2.toQuadratic_neg
  map_inv := Fq2.toQuadratic_inv
  two_ne_zero := Fq2.re_ne_zero (by rw [QuadraticAlgebra.re_ofNat]; exact Fq.two_ne_zero)
  three_ne_zero := Fq2.re_ne_zero (by rw [QuadraticAlgebra.re_ofNat]; exact Fq.three_ne_zero)
  coeffB_ne_zero := by
    show Fq2.toQuadratic (3 * Fq2.xi⁻¹) ≠ 0
    have h3 : Fq2.toQuadratic 3 ≠ 0 := Fq2.re_ne_zero (by
      rw [show (3 : Fq2) = Fq2.ofFq 3 from rfl, Fq2.toQuadratic_ofFq, Fq.toZMod_three]
      exact Fq.three_ne_zero)
    -- `ξ = 9 + u` is not zero: its `u`-part is one
    have hxi : Fq2.toQuadratic Fq2.xi ≠ 0 := by
      intro h
      have him : toZMod (1 : Fq) = 0 := by
        have := congrArg QuadraticAlgebra.im h
        rwa [QuadraticAlgebra.im_zero] at this
      rw [toZMod_one] at him
      exact one_ne_zero him
    rw [Fq2.toQuadratic_mul, Fq2.toQuadratic_inv]
    exact mul_ne_zero h3 (inv_ne_zero hxi)

end ZkPolicy
