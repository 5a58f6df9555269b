import Mathlib
import ZkPolicy.Field.Residue

/-!
# Residues as a commutative ring

`Residue n` computes with canonical representatives, and its operations are written for the
evaluator: sums and products reduced by `%`, subtraction as `a + (n - b)`, powers by repeated
squaring, inverses by the extended Euclidean algorithm. This module relates every one of them to
`ZMod n` through the representative (`Residue.toZMod`), which is injective and carries each
operation to its `ZMod n` counterpart. The ring laws then come for free:

* `Residue.instCommRing` is the commutative ring induced along `toZMod`, so `ring`,
  `linear_combination` and the rest of the library apply to the scalar field's elements;
* `powBySquaring_hom`: repeated squaring computes the power in any monoid that the
  multiplication maps to, which covers `Residue.pow` (`toZMod_pow`);
* `Residue.bezout_spec`: the extended Euclidean algorithm keeps `rᵢ ≡ sᵢ · x` and ends at the
  gcd, so `Residue.inv` inverts every residue prime to the modulus
  (`Residue.mul_inv_cancel_of_coprime`); for a prime modulus it is the field inverse
  (`toZMod_inv`, `Residue.mul_inv_cancel`) and the residues form a domain
  (`Residue.instIsDomain`).
-/

namespace ZkPolicy

/-- **Repeated squaring is the power.** Whatever multiplication it runs on, if `f` sends it to a
monoid's, with `one` to `1`, the result of `powBySquaring` goes to the `e`-th power. -/
theorem powBySquaring_hom {α M : Type} [Mul α] [Monoid M] (f : α → M) (one : α)
    (hone : f one = 1) (hmul : ∀ x y, f (x * y) = f x * f y) (a : α) (e : Nat) :
    f (powBySquaring one a e) = f a ^ e := by
  induction e using Nat.strong_induction_on generalizing a with
  | _ e ih =>
    cases e with
    | zero => simp [powBySquaring, hone]
    | succ k =>
      have hhalf : (k + 1) / 2 < k + 1 := Nat.div_lt_self (Nat.succ_pos k) (by decide)
      -- `a ^ (k+1) = a ^ ((k+1) % 2) · (a · a) ^ ((k+1) / 2)`
      have key : f a ^ (k + 1) = f a ^ ((k + 1) % 2) * f (a * a) ^ ((k + 1) / 2) := by
        rw [hmul, ← sq, ← pow_mul, ← pow_add, Nat.mod_add_div]
      rw [powBySquaring]
      split
      · next hodd => rw [hmul, ih _ hhalf, key, hodd, pow_one]
      · next heven =>
        rw [ih _ hhalf, key, show (k + 1) % 2 = 0 by omega, pow_zero, one_mul]

namespace Residue

variable {n : Nat}

instance [Modulus n] : NeZero n := ⟨Nat.pos_iff_ne_zero.mp Modulus.pos⟩

/-- A residue as an element of `ZMod n`: its representative, cast. -/
def toZMod (a : Residue n) : ZMod n := a.val

/-- The residue of an element of `ZMod n`: its canonical representative. -/
def ofZMod [Modulus n] (x : ZMod n) : Residue n := ⟨x.val, ZMod.val_lt x⟩

@[simp] theorem val_toZMod (a : Residue n) : (toZMod a).val = a.val := by
  rw [toZMod, ZMod.val_natCast, Nat.mod_eq_of_lt a.isLt]

theorem toZMod_injective : Function.Injective (toZMod : Residue n → ZMod n) := by
  intro a b h
  have hv : a.val = b.val := by rw [← val_toZMod a, ← val_toZMod b, h]
  cases a
  cases b
  cases hv
  rfl

theorem toZMod_inj {a b : Residue n} : toZMod a = toZMod b ↔ a = b :=
  toZMod_injective.eq_iff

@[simp] theorem toZMod_ofZMod [Modulus n] (x : ZMod n) : toZMod (ofZMod x) = x :=
  ZMod.natCast_zmod_val x

@[simp] theorem toZMod_ofNat [Modulus n] (k : Nat) : toZMod (ofNat n k) = k := by
  simp [toZMod, ZMod.natCast_mod]

@[simp] theorem toZMod_add (a b : Residue n) : toZMod (a + b) = toZMod a + toZMod b := by
  simp [toZMod, ZMod.natCast_mod]

@[simp] theorem toZMod_mul (a b : Residue n) : toZMod (a * b) = toZMod a * toZMod b := by
  simp [toZMod, ZMod.natCast_mod]

@[simp] theorem toZMod_neg (a : Residue n) : toZMod (-a) = -toZMod a := by
  simp [toZMod, ZMod.natCast_mod, Nat.cast_sub a.isLt.le]

@[simp] theorem toZMod_sub (a b : Residue n) : toZMod (a - b) = toZMod a - toZMod b := by
  simp [toZMod, ZMod.natCast_mod, Nat.cast_sub b.isLt.le, sub_eq_add_neg]

@[simp] theorem toZMod_zero [Modulus n] : toZMod (0 : Residue n) = 0 := by
  rw [show (0 : Residue n) = ofNat n 0 from rfl, toZMod_ofNat, Nat.cast_zero]

@[simp] theorem toZMod_one [Modulus n] : toZMod (1 : Residue n) = 1 := by
  rw [show (1 : Residue n) = ofNat n 1 from rfl, toZMod_ofNat, Nat.cast_one]

@[simp] theorem toZMod_pow [Modulus n] (a : Residue n) (e : Nat) :
    toZMod (a.pow e) = toZMod a ^ e :=
  powBySquaring_hom toZMod _ (by simp [toZMod, ZMod.natCast_mod]) toZMod_mul a e

section Ring

variable [Modulus n]

instance : NatCast (Residue n) := ⟨ofNat n⟩
instance : IntCast (Residue n) := ⟨fun z => ofZMod z⟩
instance : SMul Nat (Residue n) := ⟨fun k a => ofNat n k * a⟩
instance : SMul Int (Residue n) := ⟨fun z a => ofZMod z * a⟩
instance : Pow (Residue n) Nat := ⟨pow⟩

/-- The commutative ring of residues, induced from `ZMod n` along the injective `toZMod`. -/
instance instCommRing : CommRing (Residue n) :=
  toZMod_injective.commRing _ toZMod_zero toZMod_one toZMod_add toZMod_mul toZMod_neg toZMod_sub
    (fun k a => by
      show toZMod (ofNat n k * a) = _
      rw [toZMod_mul, toZMod_ofNat, nsmul_eq_mul])
    (fun z a => by
      show toZMod (ofZMod z * a) = _
      rw [toZMod_mul, toZMod_ofZMod, zsmul_eq_mul])
    (fun a e => toZMod_pow a e) (fun k => toZMod_ofNat k) (fun z => toZMod_ofZMod (z : ZMod n))

/-- `toZMod` as a ring homomorphism. -/
def toZModHom : Residue n →+* ZMod n where
  toFun := toZMod
  map_one' := toZMod_one
  map_mul' := toZMod_mul
  map_zero' := toZMod_zero
  map_add' := toZMod_add

@[simp] theorem toZMod_natCast (k : Nat) : toZMod (k : Residue n) = k := toZMod_ofNat k

end Ring

/-- **Extended Euclid.** From remainders with `rᵢ ≡ sᵢ · x`, the algorithm returns the gcd of
the two remainders together with a coefficient `s` such that `gcd ≡ s · x`. -/
theorem bezout_spec (x : ZMod n) (r₀ r₁ : Nat) (s₀ s₁ : Int) (h₀ : (r₀ : ZMod n) = s₀ * x)
    (h₁ : (r₁ : ZMod n) = s₁ * x) :
    ((bezout r₀ r₁ s₀ s₁).1 : ZMod n) = (bezout r₀ r₁ s₀ s₁).2 * x ∧
      (bezout r₀ r₁ s₀ s₁).1 = Nat.gcd r₀ r₁ := by
  fun_induction bezout r₀ r₁ s₀ s₁ with
  | case1 r₀ s₀ s₁ => exact ⟨h₀, (Nat.gcd_zero_right r₀).symm⟩
  | case2 r₀ s₀ s₁ r ih =>
    -- one Euclid step: `r₀ % (r + 1) = r₀ - q · (r + 1)` keeps the invariant
    generalize hq : r₀ / (r + 1) = q at ih
    have hmod : ((r₀ % (r + 1) : Nat) : ZMod n) = ((s₀ - (q : Int) * s₁ : Int) : ZMod n) * x := by
      have hdiv : (r₀ : ZMod n) =
          ((r₀ % (r + 1) : Nat) : ZMod n) + (q : ZMod n) * ((r + 1 : Nat) : ZMod n) := by
        rw [← hq, ← Nat.cast_mul, ← Nat.cast_add, mul_comm, Nat.mod_add_div]
      rw [Int.cast_sub, Int.cast_mul, Int.cast_natCast, sub_mul, ← h₀, mul_assoc, ← h₁, hdiv]
      ring
    obtain ⟨h1, h2⟩ := ih h₁ hmod
    refine ⟨h1, ?_⟩
    rw [h2, Nat.gcd_comm, ← Nat.gcd_rec, Nat.gcd_comm]

section Coprime

variable [Modulus n]

/-- The inverse stores the Bézout coefficient of `a`, reduced. -/
theorem toZMod_inv_eq_bezout (a : Residue n) : toZMod a⁻¹ = ((bezout n a.val 0 1).2 : ZMod n) := by
  have hn : (n : Int) ≠ 0 := by exact_mod_cast (Nat.pos_iff_ne_zero.mp Modulus.pos)
  show (((((bezout n a.val 0 1).2 % (n : Int)).toNat % n : Nat)) : ZMod n) = _
  rw [ZMod.natCast_mod, ← Int.cast_natCast, Int.toNat_of_nonneg (Int.emod_nonneg _ hn),
    ZMod.intCast_mod]

/-- A residue prime to the modulus times its inverse is one, whether or not the modulus is
prime. -/
theorem mul_inv_cancel_of_coprime {a : Residue n} (h : Nat.gcd n a.val = 1) : a * a⁻¹ = 1 := by
  obtain ⟨hspec, hgcd⟩ := bezout_spec (toZMod a) n a.val 0 1 (by simp) (by simp [toZMod])
  rw [hgcd, h, Nat.cast_one] at hspec
  apply toZMod_injective
  rw [toZMod_mul, toZMod_inv_eq_bezout, toZMod_one, hspec, mul_comm]

end Coprime

section Prime

variable [Fact n.Prime]

instance : Modulus n := ⟨(Fact.out : n.Prime).pos⟩

/-- Modulo a prime, `Residue.inv` is the inverse of `ZMod n`, zero going to zero. -/
theorem toZMod_inv (a : Residue n) : toZMod a⁻¹ = (toZMod a)⁻¹ := by
  obtain ⟨hspec, hgcd⟩ := bezout_spec (toZMod a) n a.val 0 1 (by simp) (by simp [toZMod])
  by_cases ha : a.val = 0
  · have h0 : toZMod a = 0 := by simp [toZMod, ha]
    have hb : bezout n 0 0 1 = (n, 0) := by simp [bezout]
    rw [toZMod_inv_eq_bezout, h0, inv_zero, ha, hb, Int.cast_zero]
  · -- a nonzero residue is prime to the prime modulus, so the gcd is one
    have hcop : Nat.gcd n a.val = 1 :=
      (Nat.Prime.coprime_iff_not_dvd Fact.out).2 fun hd =>
        ha (Nat.eq_zero_of_dvd_of_lt hd a.isLt)
    rw [hgcd, hcop, Nat.cast_one] at hspec
    rw [toZMod_inv_eq_bezout]
    exact eq_inv_of_mul_eq_one_left hspec.symm

/-- Modulo a prime, a nonzero residue times its inverse is one. -/
theorem mul_inv_cancel {a : Residue n} (h : a ≠ 0) : a * a⁻¹ = 1 := by
  have ha : toZMod a ≠ 0 := fun h0 => h (toZMod_injective (h0.trans toZMod_zero.symm))
  apply toZMod_injective
  rw [toZMod_mul, toZMod_inv, toZMod_one, mul_inv_cancel₀ ha]

/-- Modulo a prime, the residues have no zero divisors. -/
instance instIsDomain : IsDomain (Residue n) :=
  Function.Injective.isDomain toZModHom toZMod_injective

end Prime

end Residue

end ZkPolicy
