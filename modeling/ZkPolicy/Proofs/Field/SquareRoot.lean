import Mathlib
import ZkPolicy.Bn254.Fq2
import ZkPolicy.Proofs.Field.Prime
import ZkPolicy.Proofs.Field.Ring

/-!
# Square roots in the base field and in `Fq2`

A compressed point keeps its abscissa and one bit of its ordinate, and reading it back takes a
square root of `x³ + b`. Both root functions of the library find a root of every square, so no
point of either curve is lost on the way.

* `Fq.sqrt?_eq_none_iff`: `a ^ ((p + 1) / 4)` is a root of every square by Euler's criterion,
  since `p ≡ 3 (mod 4)`; so `Fq.sqrt?` fails exactly on the elements that are not squares.
* `Fq2.toQuadratic` carries `Fq2` into Mathlib's `QuadraticAlgebra` `𝔽ₚ[u] / (u² + 1)`, a field
  because `-1` is not a square modulo `p`, and keeps the arithmetic. So in `Fq2`, as in `Fq`, a
  square has no roots but `±y` (`Fq2.eq_or_eq_neg_of_mul_self_eq`).
* `Fq2.sqrt?_eq_none_iff`: for `a = y²` with `c1 ≠ 0`, the norm of `a` is the square of
  `y0² + y1²`, so its root `α` is `±(y0² + y1²)` and one of `(c0 ± α) / 2` is `y0²`; the element
  built from a root of that one squares to `a`. With `c1 = 0`, `a` is `y0²` or `-y1²`. So
  `Fq2.sqrt?` too fails exactly on the elements that are not squares.

The argument for `Fq2` runs on `Fq2.sqrtWith`, the same function with the root function of `Fq`
and the constant `1 / 2` as parameters: a proof about `Fq2.sqrt?` itself would have the kernel
compare terms holding `Fq.sqrt? x`, and it evaluates such a term by unfolding the power's
recursion on a 254-bit exponent.
-/

namespace ZkPolicy

open Residue

namespace Fq

/-- A root that `sqrt?` returns squares back: the function checks it. -/
theorem mul_self_of_sqrt? {a c : Fq} (h : sqrt? a = some c) : c * c = a := by
  simp only [sqrt?] at h
  split at h
  · next hc =>
    cases h
    exact hc
  · cases h

/-- **Euler's criterion** for `p ≡ 3 (mod 4)`: the `(p + 1) / 4`-th power of a square squares
back to it, since `y ^ (p - 1) = 1` for `y ≠ 0`. -/
theorem pow_mul_self_of_mul_self {a y : ZMod Fq.modulus} (h : y * y = a) :
    a ^ ((Fq.modulus + 1) / 4) * a ^ ((Fq.modulus + 1) / 4) = a := by
  subst h
  by_cases hy : y = 0
  · subst hy
    rw [mul_zero, zero_pow (by decide : (Fq.modulus + 1) / 4 ≠ 0), mul_zero]
  · rw [← pow_add, ← sq, ← pow_mul,
      show 2 * ((Fq.modulus + 1) / 4 + (Fq.modulus + 1) / 4) = (Fq.modulus - 1) + 2 by decide,
      pow_add, ZMod.pow_card_sub_one_eq_one hy, one_mul]

/-- **Roots of squares.** `sqrt?` fails exactly on the elements that are not squares. -/
theorem sqrt?_eq_none_iff {a : Fq} : sqrt? a = none ↔ ∀ y : Fq, y * y ≠ a := by
  constructor
  · intro h y hy
    -- the candidate `a ^ ((p + 1) / 4)` squares back to `a`
    have hc : a.pow ((Fq.modulus + 1) / 4) * a.pow ((Fq.modulus + 1) / 4) = a := by
      apply toZMod_injective
      rw [toZMod_mul, toZMod_pow]
      exact pow_mul_self_of_mul_self (by rw [← toZMod_mul, hy])
    simp only [sqrt?] at h
    split at h
    · cases h
    · next hne => exact hne hc
  · intro h
    simp only [sqrt?]
    split
    · next hc => exact absurd hc (h _)
    · rfl

/-- A square has a root that `sqrt?` finds. -/
theorem sqrt?_of_mul_self {a y : Fq} (h : y * y = a) : ∃ c, sqrt? a = some c := by
  cases hs : sqrt? a with
  | none => exact absurd h (sqrt?_eq_none_iff.1 hs y)
  | some c => exact ⟨c, rfl⟩

/-- Modulo the prime `p` a square has the two roots `±y` only. -/
theorem eq_or_eq_neg_of_mul_self_eq {c y : Fq} (h : c * c = y * y) : c = y ∨ c = -y :=
  mul_self_eq_mul_self_iff.1 h

theorem two_ne_zero : (2 : ZMod Fq.modulus) ≠ 0 := by decide +kernel

theorem toZMod_half : toZMod ((2 : Fq)⁻¹) = 2⁻¹ := by
  rw [toZMod_inv]
  show (toZMod (ofNat Fq.modulus 2))⁻¹ = _
  rw [toZMod_ofNat, Nat.cast_ofNat]

end Fq

namespace Fq2

/-! ### `Fq2` inside Mathlib's quadratic extension -/

/-- `𝔽ₚ[u] / (u² + 1)` as Mathlib builds it. -/
abbrev Quadratic := QuadraticAlgebra (ZMod Fq.modulus) (-1) 0

/-- `-1` is not a square modulo `p`, since `p ≡ 3 (mod 4)`; so `u² + 1` has no root and the
quadratic algebra is a field. -/
instance : Fact (∀ r : ZMod Fq.modulus, r ^ 2 ≠ -1 + 0 * r) := ⟨fun r hr => by
  have hsq : IsSquare (-1 : ZMod Fq.modulus) := ⟨r, by rw [← sq, hr]; ring⟩
  exact ZMod.exists_sq_eq_neg_one_iff.1 hsq (by decide)⟩

/-- An element of `Fq2` in Mathlib's quadratic extension. -/
def toQuadratic (a : Fq2) : Quadratic := ⟨toZMod a.c0, toZMod a.c1⟩

theorem ext {a b : Fq2} (h0 : a.c0 = b.c0) (h1 : a.c1 = b.c1) : a = b := by
  cases a
  cases b
  cases h0
  cases h1
  rfl

theorem toQuadratic_injective : Function.Injective toQuadratic := by
  intro a b h
  have h0 : toZMod a.c0 = toZMod b.c0 := congrArg QuadraticAlgebra.re h
  have h1 : toZMod a.c1 = toZMod b.c1 := congrArg QuadraticAlgebra.im h
  exact ext (toZMod_injective h0) (toZMod_injective h1)

@[simp] theorem mul_c0 (a b : Fq2) : (a * b).c0 = a.c0 * b.c0 - a.c1 * b.c1 := rfl

@[simp] theorem neg_c0 (a : Fq2) : (-a).c0 = -a.c0 := rfl

@[simp] theorem neg_c1 (a : Fq2) : (-a).c1 = -a.c1 := rfl

@[simp] theorem toQuadratic_mul (a b : Fq2) :
    toQuadratic (a * b) = toQuadratic a * toQuadratic b := by
  ext
  · simp only [toQuadratic, mul_c0, toZMod_sub, toZMod_mul, QuadraticAlgebra.re_mul]
    ring
  · simp only [toQuadratic, mul_c1, toZMod_add, toZMod_mul, QuadraticAlgebra.im_mul]
    ring

@[simp] theorem toQuadratic_neg (a : Fq2) : toQuadratic (-a) = -toQuadratic a := by
  ext <;> simp [toQuadratic]

/-- In `Fq2` a square has the two roots `±y` only. -/
theorem eq_or_eq_neg_of_mul_self_eq {c y : Fq2} (h : c * c = y * y) : c = y ∨ c = -y := by
  have hq : toQuadratic c * toQuadratic c = toQuadratic y * toQuadratic y := by
    rw [← toQuadratic_mul, ← toQuadratic_mul, h]
  rcases mul_self_eq_mul_self_iff.1 hq with h' | h'
  · exact .inl (toQuadratic_injective h')
  · exact .inr (toQuadratic_injective (by rw [h', toQuadratic_neg]))

/-! ### The root function -/

/-- `sqrt?` with the root function of `Fq` and the constant `1 / 2` as parameters. -/
def sqrtWith (sq : Fq → Option Fq) (half : Fq) (a : Fq2) : Option Fq2 :=
  let candidate : Option Fq2 :=
    if a.c1 = 0 then
      match sq a.c0 with
      | some r => some ⟨r, 0⟩
      | none => (sq (-a.c0)).map fun r => ⟨0, r⟩
    else do
      let alpha ← sq a.norm
      let x0 ← match sq ((a.c0 + alpha) * half) with
        | some r => some r
        | none => sq ((a.c0 - alpha) * half)
      some ⟨x0, a.c1 * (x0 + x0)⁻¹⟩
  candidate.bind fun r => if r * r = a then some r else none

theorem sqrt?_eq_sqrtWith (a : Fq2) : sqrt? a = sqrtWith Fq.sqrt? (2 : Fq)⁻¹ a := rfl

/-- The final check of `sqrt?` keeps a candidate exactly when it squares to `a`. -/
theorem mul_self_of_check {a r : Fq2} {o : Option Fq2}
    (h : (o.bind fun r => if r * r = a then some r else none) = some r) : r * r = a := by
  cases o with
  | none => cases h
  | some r' =>
    simp only [Option.bind_some] at h
    split at h
    · next hsq =>
      cases h
      exact hsq
    · cases h

theorem bind_check_of_mul_self {a r : Fq2} (hr : r * r = a) :
    (some r).bind (fun r => if r * r = a then some r else none) = some r := by
  simp only [Option.bind_some, if_pos hr]

/-- A root that `sqrt?` returns squares back: the function checks it. -/
theorem mul_self_of_sqrt? {a r : Fq2} (h : sqrt? a = some r) : r * r = a :=
  mul_self_of_check h

/-! ### Each branch finds a root of a square -/

/-- A square with `c1 = 0` is the square of an element of `Fq` or of `Fq · u`. -/
theorem real_or_imaginary {a y : Fq2} (hy : y * y = a) (hc1 : a.c1 = 0) :
    y.c0 * y.c0 = a.c0 ∨ y.c1 * y.c1 = -a.c0 := by
  -- `c1 = 2 y0 y1 = 0`, and `2 ≠ 0`
  have hprod : toZMod y.c0 * toZMod y.c1 = 0 := by
    have h := congrArg (fun z => toZMod z.c1) hy
    simp only [mul_c1, toZMod_add, toZMod_mul, hc1, toZMod_zero] at h
    have h2 : 2 * (toZMod y.c0 * toZMod y.c1) = 0 := by linear_combination h
    exact (mul_eq_zero.1 h2).resolve_left Fq.two_ne_zero
  rcases mul_eq_zero.1 hprod with h0 | h1
  · right
    have hy0 : y.c0 = 0 := toZMod_injective (h0.trans toZMod_zero.symm)
    rw [← hy, mul_c0, hy0]
    ring
  · left
    have hy1 : y.c1 = 0 := toZMod_injective (h1.trans toZMod_zero.symm)
    rw [← hy, mul_c0, hy1]
    ring

/-- A root of `c0` in `Fq` is a root of `a` when `c1 = 0`. -/
theorem real_mul_self {a : Fq2} {r : Fq} (hr : r * r = a.c0) (hc1 : a.c1 = 0) :
    (⟨r, 0⟩ : Fq2) * ⟨r, 0⟩ = a := by
  apply ext
  · rw [mul_c0, ← hr]
    ring
  · rw [mul_c1, hc1]
    ring

/-- A root of `-c0` in `Fq`, times `u`, is a root of `a` when `c1 = 0`. -/
theorem imaginary_mul_self {a : Fq2} {r : Fq} (hr : r * r = -a.c0) (hc1 : a.c1 = 0) :
    (⟨0, r⟩ : Fq2) * ⟨0, r⟩ = a := by
  apply ext
  · rw [mul_c0]
    linear_combination -hr
  · rw [mul_c1, hc1]
    ring

/-- The root built when `c1 ≠ 0`: from `α² = c0² + c1²` and `x² = (c0 + α) / 2`, the element
`x + c1 / (2x) · u` squares to `c0 + c1 u`. -/
theorem branch_mul_self {c0 c1 α x : ZMod Fq.modulus} (hc1 : c1 ≠ 0)
    (hα : α * α = c0 * c0 + c1 * c1) (hx : x * x = (c0 + α) * 2⁻¹) :
    x * x - c1 * (x + x)⁻¹ * (c1 * (x + x)⁻¹) = c0 ∧
      x * (c1 * (x + x)⁻¹) + c1 * (x + x)⁻¹ * x = c1 := by
  have h2 := Fq.two_ne_zero
  have hx2 : 2 * (x * x) = c0 + α := by rw [hx]; field_simp
  -- `x ≠ 0`: otherwise `α = -c0`, and `α² = c0² + c1²` would force `c1 = 0`
  have hx0 : x ≠ 0 := by
    rintro rfl
    have hα' : α = -c0 := by linear_combination -hx2
    subst hα'
    exact hc1 (mul_self_eq_zero.1 (by linear_combination -hα))
  have hxx : x + x ≠ 0 := by rw [← two_mul]; exact mul_ne_zero h2 hx0
  set d := c1 * (x + x)⁻¹ with hd_def
  have hd : d * (x + x) = c1 := by rw [hd_def, mul_assoc, inv_mul_cancel₀ hxx, mul_one]
  constructor
  · -- `(x² - d² - c0) · 4x² = 0`, and `4x² ≠ 0`
    have hmul : (x * x - d * d - c0) * (4 * (x * x)) = 0 := by
      linear_combination (2 * (x * x) + c0 + α - 2 * c0) * hx2 - (d * (x + x) + c1) * hd + hα
    have h4 : 4 * (x * x) ≠ 0 := mul_ne_zero (by
      rw [show (4 : ZMod Fq.modulus) = 2 * 2 by norm_num]; exact mul_ne_zero h2 h2)
      (mul_ne_zero hx0 hx0)
    linear_combination (mul_eq_zero.1 hmul).resolve_right h4
  · linear_combination hd

/-- The element `x + c1 / (2x) · u` squares to `a` once its components do, in `ZMod p`. -/
theorem mul_self_mk {a : Fq2} {x : Fq}
    (h0 : toZMod x * toZMod x - toZMod a.c1 * (toZMod x + toZMod x)⁻¹ *
      (toZMod a.c1 * (toZMod x + toZMod x)⁻¹) = toZMod a.c0)
    (h1 : toZMod x * (toZMod a.c1 * (toZMod x + toZMod x)⁻¹) +
      toZMod a.c1 * (toZMod x + toZMod x)⁻¹ * toZMod x = toZMod a.c1) :
    (⟨x, a.c1 * (x + x)⁻¹⟩ : Fq2) * ⟨x, a.c1 * (x + x)⁻¹⟩ = a := by
  apply ext
  · apply toZMod_injective
    simpa only [mul_c0, toZMod_sub, toZMod_mul, toZMod_inv, toZMod_add] using h0
  · apply toZMod_injective
    simpa only [mul_c1, toZMod_add, toZMod_mul, toZMod_inv] using h1

section Roots

variable {sq : Fq → Option Fq} {half : Fq}
  (hsound : ∀ {x c : Fq}, sq x = some c → c * c = x)
  (hcomplete : ∀ {x : Fq} (z : Fq), z * z = x → ∃ c, sq x = some c)
  (hhalf : toZMod half = 2⁻¹)

include hhalf in
/-- The candidate of the branch `c1 ≠ 0` squares to `a`: `x` is a root of `(c0 + α) / 2` or of
`(c0 - α) / 2`, and `α` one of the norm. -/
theorem mul_self_of_branch {a : Fq2} {α x : Fq} (hc1 : a.c1 ≠ 0) (hα : α * α = a.norm)
    (hx : x * x = (a.c0 + α) * half ∨ x * x = (a.c0 - α) * half) :
    (⟨x, a.c1 * (x + x)⁻¹⟩ : Fq2) * ⟨x, a.c1 * (x + x)⁻¹⟩ = a := by
  have hc1' : toZMod a.c1 ≠ 0 := fun h => hc1 (toZMod_injective (h.trans toZMod_zero.symm))
  have hα' : toZMod α * toZMod α = toZMod a.c0 * toZMod a.c0 + toZMod a.c1 * toZMod a.c1 := by
    rw [← toZMod_mul, hα, norm, toZMod_add, toZMod_mul, toZMod_mul]
  rcases hx with hx | hx
  · obtain ⟨h0, h1⟩ := branch_mul_self (x := toZMod x) hc1' hα'
      (by rw [← toZMod_mul, hx, toZMod_mul, toZMod_add, hhalf])
    exact mul_self_mk h0 h1
  · -- the branch with `c0 - α` is the branch with `c0 + (-α)`
    obtain ⟨h0, h1⟩ := @branch_mul_self (toZMod a.c0) (toZMod a.c1) (-toZMod α) (toZMod x) hc1'
      (by rw [neg_mul_neg]; exact hα')
      (by rw [← toZMod_mul, hx, toZMod_mul, toZMod_sub, hhalf, sub_eq_add_neg])
    exact mul_self_mk h0 h1

include hhalf in
/-- For `a = y²`, half of `c0` plus `y0² + y1²` is `y0²`. -/
theorem add_mul_half {a y : Fq2} (hy : y * y = a) :
    (a.c0 + (y.c0 * y.c0 + y.c1 * y.c1)) * half = y.c0 * y.c0 := by
  have h0 : toZMod a.c0 = toZMod y.c0 * toZMod y.c0 - toZMod y.c1 * toZMod y.c1 := by
    rw [← hy, mul_c0, toZMod_sub, toZMod_mul, toZMod_mul]
  apply toZMod_injective
  simp only [toZMod_mul, toZMod_add, hhalf, h0]
  field_simp [Fq.two_ne_zero]
  ring

include hsound hcomplete hhalf in
/-- **Every square has a root**, with any root function of `Fq` that is sound and finds a root of
every square, and with `half = 1 / 2`. -/
theorem sqrtWith_of_mul_self {a y : Fq2} (hy : y * y = a) : ∃ r, sqrtWith sq half a = some r := by
  have hnone : ∀ {x : Fq}, sq x = none → ∀ z : Fq, z * z ≠ x := by
    intro x hx z hz
    obtain ⟨c, hc⟩ := hcomplete z hz
    rw [hx] at hc
    cases hc
  unfold sqrtWith
  simp only [Option.bind_eq_bind]
  split
  · next hc1 =>
    -- `a` is `y0²` or `-y1²`, and `sq` finds a root of the one that is a square in `Fq`
    cases h0 : sq a.c0 with
    | some r => exact ⟨_, bind_check_of_mul_self (real_mul_self (hsound h0) hc1)⟩
    | none =>
      have hneg : y.c1 * y.c1 = -a.c0 := (real_or_imaginary hy hc1).resolve_left (hnone h0 _)
      obtain ⟨r, hr⟩ := hcomplete _ hneg
      simp only [hr, Option.map_some]
      exact ⟨_, bind_check_of_mul_self (imaginary_mul_self (hsound hr) hc1)⟩
  · next hc1 =>
    -- the norm is the square of `s = y0² + y1²`, so its root is `α = ±s`
    have hnorm : (y.c0 * y.c0 + y.c1 * y.c1) * (y.c0 * y.c0 + y.c1 * y.c1) = a.norm := by
      rw [← hy, norm, mul_c0, mul_c1]
      ring
    obtain ⟨α, hα⟩ := hcomplete _ hnorm
    have hαα := hsound hα
    simp only [hα, Option.bind_some]
    cases h1 : sq ((a.c0 + α) * half) with
    | some x =>
      simp only [Option.bind_some]
      exact ⟨_, bind_check_of_mul_self (mul_self_of_branch hhalf hc1 hαα (.inl (hsound h1)))⟩
    | none =>
      -- `(c0 + α) / 2` is not a square, so `α = -s` and `(c0 - α) / 2 = y0²`
      have hα' : α = -(y.c0 * y.c0 + y.c1 * y.c1) :=
        (Fq.eq_or_eq_neg_of_mul_self_eq (hαα.trans hnorm.symm)).resolve_left fun h =>
          hnone h1 y.c0 (by rw [h, add_mul_half hhalf hy])
      obtain ⟨x, hx⟩ := hcomplete (x := (a.c0 - α) * half) y.c0
        (by rw [hα', sub_neg_eq_add, add_mul_half hhalf hy])
      simp only [hx, Option.bind_some]
      exact ⟨_, bind_check_of_mul_self (mul_self_of_branch hhalf hc1 hαα (.inr (hsound hx)))⟩

end Roots

/-- A square has a root that `sqrt?` finds. -/
theorem sqrt?_of_mul_self {a y : Fq2} (hy : y * y = a) : ∃ r, sqrt? a = some r := by
  rw [sqrt?_eq_sqrtWith]
  exact sqrtWith_of_mul_self Fq.mul_self_of_sqrt? (fun _ hz => Fq.sqrt?_of_mul_self hz)
    Fq.toZMod_half hy

/-- **Roots of squares in `Fq2`.** `sqrt?` fails exactly on the elements that are not squares. -/
theorem sqrt?_eq_none_iff {a : Fq2} : sqrt? a = none ↔ ∀ y : Fq2, y * y ≠ a := by
  constructor
  · intro h y hy
    obtain ⟨r, hr⟩ := sqrt?_of_mul_self hy
    rw [h] at hr
    cases hr
  · intro h
    cases hs : sqrt? a with
    | none => rfl
    | some r => exact absurd (mul_self_of_sqrt? hs) (h r)

end Fq2

end ZkPolicy
