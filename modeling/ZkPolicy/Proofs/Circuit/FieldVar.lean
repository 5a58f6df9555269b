import Mathlib
import ZkPolicy.Proofs.Circuit.Boolean
import ZkPolicy.Circuit.FieldVar

/-!
# Field elements in a circuit: what their constraints force

An element is *honest* under an assignment when its combination evaluates to its recorded value
(`FieldVar.Honest`). Linear operations emit nothing and act on evaluations as on values. For
the gadgets that emit constraints this module proves, as for the booleans, soundness (the
emitted constraints force the output's evaluation) and completeness (under the honest assignment
they hold and the output stays honest):

* `mul_sound`, `square_sound`: the product's evaluation is the product of the evaluations;
* `pow_sound`: square and multiply over the bits of `e`, most significant first, evaluates to
  the `e`-th power (`msbNumber_bitsMSB`: the bits read back give `e`);
* `isNonzero_sound`: `δ · m = b` and `δ · (1 - b) = 0` force `b` to say whether `δ` is nonzero,
  whatever the prover puts in the multiplier `m`; completeness needs the inverse of a nonzero
  difference, so it rests on `r` being prime;
* `eval_lc_ofBitsLE`: packed bits evaluate to `Σ 2ⁱ · bᵢ`;
* `holdsBetween_enforceEq_iff`: demanding equality holds exactly when the evaluations agree.
-/

namespace ZkPolicy

namespace Circuit

/-- Whether the boolean is a constant. -/
def BoolVar.isConst : BoolVar → Bool
  | .const _ => true
  | _ => false

namespace FieldVar

open LinComb

variable {asg : Assignment}

/-- The element's combination evaluates to its recorded value. -/
def Honest (asg : Assignment) (x : FieldVar) : Prop := x.lc.eval asg = x.value

/-- Whether the element is a constant. -/
def isConst : FieldVar → Bool
  | const _ => true
  | var _ _ => false

@[simp] theorem eval_lc_var (l : LinComb) (v : Fr) : (var l v).lc.eval asg = l.eval asg := rfl

@[simp] theorem value_var (l : LinComb) (v : Fr) : (var l v).value = v := rfl

@[simp] theorem value_const (c : Fr) : (const c).value = c := rfl

theorem eval_lc_const (hone : asg Var.one = 1) (c : Fr) : (const c).lc.eval asg = c := by
  rw [lc, eval_const, hone, mul_one]

theorem honest_const (hone : asg Var.one = 1) (c : Fr) : (const c).Honest asg :=
  eval_lc_const hone c

/-! ### Linear operations -/

section Linear

variable (x y : FieldVar)

theorem eval_lc_add : (x.add y).lc.eval asg = x.lc.eval asg + y.lc.eval asg := by
  cases x <;> cases y <;> simp [add, lc, add_mul]

@[simp] theorem value_add : (x.add y).value = x.value + y.value := by
  cases x <;> cases y <;> rfl

theorem eval_lc_sub : (x.sub y).lc.eval asg = x.lc.eval asg - y.lc.eval asg := by
  cases x <;> cases y <;> simp [sub, lc, sub_mul]

@[simp] theorem value_sub : (x.sub y).value = x.value - y.value := by
  cases x <;> cases y <;> rfl

theorem eval_lc_scale (c : Fr) : (x.scale c).lc.eval asg = c * x.lc.eval asg := by
  cases x <;> simp [scale, lc, mul_assoc]

@[simp] theorem value_scale (c : Fr) : (x.scale c).value = c * x.value := by
  cases x <;> rfl

variable {x y}

theorem Honest.add (hx : x.Honest asg) (hy : y.Honest asg) : (x.add y).Honest asg := by
  rw [Honest, eval_lc_add, value_add, hx, hy]

theorem Honest.sub (hx : x.Honest asg) (hy : y.Honest asg) : (x.sub y).Honest asg := by
  rw [Honest, eval_lc_sub, value_sub, hx, hy]

theorem Honest.scale (hx : x.Honest asg) (c : Fr) : (x.scale c).Honest asg := by
  rw [Honest, eval_lc_scale, value_scale, hx]

end Linear

/-! ### Booleans as elements -/

@[simp] theorem lc_ofBool (b : BoolVar) : (ofBool b).lc = b.lc := by
  cases b <;> rfl

@[simp] theorem value_ofBool (b : BoolVar) : (ofBool b).value = BoolVar.bitValue b.value := by
  cases b <;> rfl

theorem Honest.ofBool {b : BoolVar} (hb : b.Honest asg) : (ofBool b).Honest asg := by
  rw [Honest, lc_ofBool, value_ofBool]
  exact hb

/-! ### Products -/

theorem run_mul_var (l₁ l₂ : LinComb) (v₁ v₂ : Fr) (s : System) :
    ((var l₁ v₁).mul (var l₂ v₂)).run s =
      (var (ofVar (.wit s.witnesses.size)) (v₁ * v₂),
        { s with witnesses := s.witnesses.push (v₁ * v₂)
                 constraints := s.constraints.push ⟨l₁, l₂, ofVar (.wit s.witnesses.size)⟩ }) :=
  rfl

theorem run_square_var (l : LinComb) (v : Fr) (s : System) :
    ((var l v).square).run s =
      (var (ofVar (.wit s.witnesses.size)) (v * v),
        { s with witnesses := s.witnesses.push (v * v)
                 constraints := s.constraints.push ⟨l, l, ofVar (.wit s.witnesses.size)⟩ }) :=
  rfl

theorem le_mul (x y : FieldVar) (s : System) : s ≤ ((x.mul y).run s).2 := by
  cases x <;> cases y
  case var.var => exact le_trans (System.le_pushWitness s _) (System.le_pushConstraint _ _)
  all_goals exact le_rfl

theorem le_square (x : FieldVar) (s : System) : s ≤ (x.square.run s).2 := by
  cases x
  case var => exact le_trans (System.le_pushWitness s _) (System.le_pushConstraint _ _)
  case const => exact le_rfl

/-- The product of two variables evaluates to the product of their evaluations. -/
theorem mul_sound (hone : asg Var.one = 1) {x y : FieldVar} {s : System}
    (h : System.HoldsBetween s ((x.mul y).run s).2 asg) :
    ((x.mul y).run s).1.lc.eval asg = x.lc.eval asg * y.lc.eval asg := by
  cases x with
  | const a =>
    change (y.scale a).lc.eval asg = _
    rw [eval_lc_scale, eval_lc_const hone]
  | var l₁ v₁ =>
    cases y with
    | const b =>
      change ((var l₁ v₁).scale b).lc.eval asg = _
      rw [eval_lc_scale, eval_lc_const hone, mul_comm]
    | var l₂ v₂ =>
      rw [run_mul_var] at h ⊢
      exact ((System.holdsBetween_push rfl).1 h).symm

@[simp] theorem value_mul (x y : FieldVar) (s : System) :
    ((x.mul y).run s).1.value = x.value * y.value := by
  cases x with
  | const a => exact value_scale y a
  | var l₁ v₁ =>
    cases y with
    | const b => exact (value_scale (var l₁ v₁) b).trans (mul_comm _ _)
    | var l₂ v₂ => rfl

/-- The honest product satisfies its constraint and is honest. -/
theorem mul_complete {x y : FieldVar} {s : System}
    (hx : x.Honest asg) (hy : y.Honest asg) (hagree : ((x.mul y).run s).2.Agrees asg) :
    System.HoldsBetween s ((x.mul y).run s).2 asg ∧ ((x.mul y).run s).1.Honest asg := by
  cases x with
  | const a =>
    exact ⟨System.holdsBetween_refl s asg, hy.scale a⟩
  | var l₁ v₁ =>
    cases y with
    | const b => exact ⟨System.holdsBetween_refl s asg, hx.scale b⟩
    | var l₂ v₂ =>
      rw [run_mul_var] at hagree ⊢
      have hr : asg (.wit s.witnesses.size) = v₁ * v₂ :=
        hagree.witness_push (System.le_pushConstraint _ _)
      have hx' : l₁.eval asg = v₁ := hx
      have hy' : l₂.eval asg = v₂ := hy
      refine ⟨(System.holdsBetween_push rfl).2 ?_, by simpa [Honest] using hr⟩
      show l₁.eval asg * l₂.eval asg = (ofVar (.wit s.witnesses.size)).eval asg
      rw [eval_ofVar, hr, hx', hy']

theorem square_sound (hone : asg Var.one = 1) {x : FieldVar} {s : System}
    (h : System.HoldsBetween s (x.square.run s).2 asg) :
    (x.square.run s).1.lc.eval asg = x.lc.eval asg * x.lc.eval asg := by
  cases x with
  | const a =>
    change (const (a * a)).lc.eval asg = _
    rw [eval_lc_const hone, eval_lc_const hone]
  | var l v =>
    rw [run_square_var] at h ⊢
    exact ((System.holdsBetween_push rfl).1 h).symm

@[simp] theorem value_square (x : FieldVar) (s : System) :
    (x.square.run s).1.value = x.value * x.value := by
  cases x <;> rfl

theorem square_complete (hone : asg Var.one = 1) {x : FieldVar} {s : System} (hx : x.Honest asg)
    (hagree : (x.square.run s).2.Agrees asg) :
    System.HoldsBetween s (x.square.run s).2 asg ∧ (x.square.run s).1.Honest asg := by
  cases x with
  | const a => exact ⟨System.holdsBetween_refl s asg, honest_const hone (a * a)⟩
  | var l v =>
    rw [run_square_var] at hagree ⊢
    have hr : asg (.wit s.witnesses.size) = v * v :=
      hagree.witness_push (System.le_pushConstraint _ _)
    have hx' : l.eval asg = v := hx
    refine ⟨(System.holdsBetween_push rfl).2 ?_, by simpa [Honest] using hr⟩
    show l.eval asg * l.eval asg = (ofVar (.wit s.witnesses.size)).eval asg
    rw [eval_ofVar, hr, hx']

/-! ### Powers

`pow` runs `powStep` over the bits of the exponent, most significant first, from the constant
one. -/

/-- One step of square and multiply: square the accumulator, then multiply by `x` if the bit is
set. -/
def powStep (x acc : FieldVar) (b : Bool) : Build FieldVar := do
  let acc ← acc.square
  if b then acc.mul x else pure acc

theorem pow_eq_foldlM (x : FieldVar) (e : Nat) :
    x.pow e = (if e = 0 then [] else bitsMSB e).foldlM (powStep x) (const 1) := rfl

/-- The number whose binary digits, most significant first, are `bs`. -/
def msbNumber (bs : List Bool) : Nat := bs.foldl (fun n b => 2 * n + b.toNat) 0

theorem foldl_msbNumber (bs : List Bool) (n : Nat) :
    bs.foldl (fun n b => 2 * n + b.toNat) n = n * 2 ^ bs.length + msbNumber bs := by
  induction bs generalizing n with
  | nil => simp [msbNumber]
  | cons b bs ih =>
    have h₁ := ih (2 * n + b.toNat)
    have h₂ := ih (2 * 0 + b.toNat)
    simp only [msbNumber, List.foldl_cons] at h₁ h₂ ⊢
    rw [h₁, h₂, List.length_cons, pow_succ]
    ring

theorem msbNumber_cons (b : Bool) (bs : List Bool) :
    msbNumber (b :: bs) = b.toNat * 2 ^ bs.length + msbNumber bs := by
  rw [msbNumber, List.foldl_cons, foldl_msbNumber]
  simp

/-- Reading the `k` lowest bits of `e` back, most significant first, gives `e mod 2ᵏ`. -/
theorem msbNumber_testBits (e k : Nat) :
    msbNumber ((List.range k).reverse.map e.testBit) = e % 2 ^ k := by
  induction k with
  | zero => simp [msbNumber, Nat.mod_one]
  | succ k ih =>
    rw [List.range_succ, List.reverse_append, List.reverse_singleton, List.singleton_append,
      List.map_cons, msbNumber_cons, List.length_map, List.length_reverse, List.length_range, ih,
      Nat.toNat_testBit, Nat.mod_pow_succ]
    ring

/-- The bits of `e` read back give `e`. -/
theorem msbNumber_bitsMSB (e : Nat) : msbNumber (bitsMSB e) = e := by
  rw [bitsMSB, msbNumber_testBits, Nat.mod_eq_of_lt Nat.lt_log2_self]

theorem run_powStep (x acc : FieldVar) (b : Bool) (s : System) :
    (powStep x acc b).run s =
      (if b then ((acc.square.run s).1.mul x).run (acc.square.run s).2
        else ((acc.square.run s).1, (acc.square.run s).2)) := by
  cases b <;> rfl

theorem le_powStep (x acc : FieldVar) (b : Bool) (s : System) :
    s ≤ ((powStep x acc b).run s).2 := by
  rw [run_powStep]
  cases b
  · exact le_square acc s
  · exact le_trans (le_square acc s) (le_mul _ _ _)

theorem le_foldlM_powStep (x : FieldVar) :
    ∀ (bs : List Bool) (acc : FieldVar) (s : System), s ≤ ((bs.foldlM (powStep x) acc).run s).2
  | [], _, _ => le_rfl
  | b :: bs, acc, s => by
    rw [List.foldlM_cons, run_bind]
    exact le_trans (le_powStep x acc b s) (le_foldlM_powStep x bs _ _)

theorem powStep_sound (hone : asg Var.one = 1) {x acc : FieldVar} {b : Bool} {s : System}
    (h : System.HoldsBetween s ((powStep x acc b).run s).2 asg) :
    ((powStep x acc b).run s).1.lc.eval asg = acc.lc.eval asg ^ 2 * x.lc.eval asg ^ b.toNat := by
  rw [run_powStep] at h ⊢
  cases b
  · rw [if_neg Bool.false_ne_true] at h ⊢
    rw [square_sound hone h, Bool.toNat_false, pow_zero, mul_one, sq]
  · rw [if_pos rfl] at h ⊢
    obtain ⟨h₁, h₂⟩ := (System.holdsBetween_trans_iff (le_square acc s) (le_mul _ _ _)).1 h
    rw [mul_sound hone h₂, square_sound hone h₁, Bool.toNat_true, pow_one, sq]

theorem powStep_complete (hone : asg Var.one = 1) {x acc : FieldVar} {b : Bool} {s : System}
    (hx : x.Honest asg) (hacc : acc.Honest asg) (hagree : ((powStep x acc b).run s).2.Agrees asg) :
    System.HoldsBetween s ((powStep x acc b).run s).2 asg ∧
      ((powStep x acc b).run s).1.Honest asg := by
  rw [run_powStep] at hagree ⊢
  cases b
  · rw [if_neg Bool.false_ne_true] at hagree ⊢
    exact square_complete hone hacc hagree
  · rw [if_pos rfl] at hagree ⊢
    obtain ⟨h₁, hsq⟩ := square_complete hone hacc (hagree.mono (le_mul _ _ _))
    obtain ⟨h₂, hmul⟩ := mul_complete hsq hx hagree
    exact ⟨h₁.trans (le_square acc s) (le_mul _ _ _) h₂, hmul⟩

/-- **Square and multiply.** Over the bits `bs`, the run from `acc` evaluates to
`acc ^ 2^|bs| · x ^ n`, where `n` is the number the bits spell. -/
theorem foldlM_powStep_sound (hone : asg Var.one = 1) (x : FieldVar) :
    ∀ (bs : List Bool) (acc : FieldVar) (s : System),
      System.HoldsBetween s ((bs.foldlM (powStep x) acc).run s).2 asg →
      ((bs.foldlM (powStep x) acc).run s).1.lc.eval asg =
        acc.lc.eval asg ^ 2 ^ bs.length * x.lc.eval asg ^ msbNumber bs
  | [], acc, s, _ => by
    show acc.lc.eval asg = acc.lc.eval asg ^ 2 ^ 0 * x.lc.eval asg ^ msbNumber []
    rw [pow_zero, pow_one, msbNumber, List.foldl_nil, pow_zero, mul_one]
  | b :: bs, acc, s, h => by
    rw [List.foldlM_cons, run_bind] at h ⊢
    obtain ⟨h₁, h₂⟩ :=
      (System.holdsBetween_trans_iff (le_powStep x acc b s) (le_foldlM_powStep x bs _ _)).1 h
    rw [foldlM_powStep_sound hone x bs _ _ h₂, powStep_sound hone h₁, msbNumber_cons,
      List.length_cons, pow_succ, pow_add, pow_mul, mul_pow, ← pow_mul, ← pow_mul]
    ring

theorem foldlM_powStep_complete (hone : asg Var.one = 1) {x : FieldVar} (hx : x.Honest asg) :
    ∀ (bs : List Bool) (acc : FieldVar) (s : System), acc.Honest asg →
      ((bs.foldlM (powStep x) acc).run s).2.Agrees asg →
      System.HoldsBetween s ((bs.foldlM (powStep x) acc).run s).2 asg ∧
        ((bs.foldlM (powStep x) acc).run s).1.Honest asg
  | [], acc, s, hacc, _ => ⟨System.holdsBetween_refl s asg, hacc⟩
  | b :: bs, acc, s, hacc, hagree => by
    rw [List.foldlM_cons, run_bind] at hagree ⊢
    have hle := le_foldlM_powStep x bs ((powStep x acc b).run s).1 ((powStep x acc b).run s).2
    obtain ⟨h₁, hstep⟩ := powStep_complete hone hx hacc (hagree.mono hle)
    obtain ⟨h₂, hrest⟩ := foldlM_powStep_complete hone hx bs _ _ hstep hagree
    exact ⟨h₁.trans (le_powStep x acc b s) hle h₂, hrest⟩

theorem le_pow (x : FieldVar) (e : Nat) (s : System) : s ≤ ((x.pow e).run s).2 := by
  rw [pow_eq_foldlM]
  exact le_foldlM_powStep x _ _ _

instance grows_pow {x : FieldVar} {e : Nat} : Grows (x.pow e) := ⟨le_pow x e⟩

/-- **Soundness of the power.** The emitted constraints force `x ^ e`. -/
theorem pow_sound (hone : asg Var.one = 1) (x : FieldVar) (e : Nat) :
    Sound asg (x.pow e) fun r => r.lc.eval asg = x.lc.eval asg ^ e := by
  intro s h
  rw [pow_eq_foldlM] at h ⊢
  rw [foldlM_powStep_sound hone x _ _ _ h, eval_lc_const hone, one_pow, one_mul]
  split
  · next he => simp [msbNumber, he]
  · rw [msbNumber_bitsMSB]

theorem pow_complete (hone : asg Var.one = 1) {x : FieldVar} (hx : x.Honest asg) (e : Nat) :
    Complete asg (x.pow e) (·.Honest asg) := by
  intro s hagree
  rw [pow_eq_foldlM] at hagree ⊢
  exact foldlM_powStep_complete hone hx _ _ _ (honest_const hone 1) hagree

/-! ### The cost of a power

Square and multiply pays one constraint per square and one per product of two variables. The
leading bit is free: squaring the constant one and multiplying it by `x` are both constant
operations. -/

@[simp] theorem isConst_var (l : LinComb) (v : Fr) : (var l v).isConst = false := rfl

@[simp] theorem isConst_const (c : Fr) : (const c).isConst = true := rfl

@[simp] theorem isConst_add (x y : FieldVar) : (x.add y).isConst = (x.isConst && y.isConst) := by
  cases x <;> cases y <;> rfl

@[simp] theorem isConst_scale (c : Fr) (x : FieldVar) : (x.scale c).isConst = x.isConst := by
  cases x <;> rfl

theorem emits_square_var {x : FieldVar} (hx : x.isConst = false) :
    Emits x.square 1 (·.isConst = false) := by
  cases x with
  | const c => cases hx
  | var l v =>
    intro s
    rw [run_square_var]
    exact ⟨Array.size_push _, rfl⟩

theorem emits_mul_var {x y : FieldVar} (hx : x.isConst = false) (hy : y.isConst = false) :
    Emits (x.mul y) 1 (·.isConst = false) := by
  cases x with
  | const c => cases hx
  | var l₁ v₁ =>
    cases y with
    | const c => cases hy
    | var l₂ v₂ =>
      intro s
      rw [run_mul_var]
      exact ⟨Array.size_push _, rfl⟩

theorem emits_powStep_var {x acc : FieldVar} (hx : x.isConst = false) (hacc : acc.isConst = false)
    (b : Bool) : Emits (powStep x acc b) (1 + b.toNat) (·.isConst = false) := by
  unfold powStep
  refine Emits.bind (emits_square_var hacc) fun a ha => ?_
  cases b
  · exact emits_pure ha
  · exact emits_mul_var ha hx

/-- The constraints of square and multiply past the leading bit: a square for each bit, and a
product for each set bit. -/
def powCost (e : Nat) : Nat := ((bitsMSB e).tail.map fun b => 1 + b.toNat).sum

theorem emits_foldlM_powStep {x : FieldVar} (hx : x.isConst = false) (bs : List Bool) :
    ∀ acc : FieldVar, acc.isConst = false →
      Emits (bs.foldlM (powStep x) acc) ((bs.map fun b => 1 + b.toNat).sum) (·.isConst = false) := by
  induction bs with
  | nil => exact fun acc hacc => emits_pure hacc
  | cons b bs ih =>
    intro acc hacc
    rw [List.foldlM_cons, List.map_cons, List.sum_cons]
    exact Emits.bind (emits_powStep_var hx hacc b) fun a ha => ih a ha

/-- The bits of a positive exponent start with a set bit. -/
theorem bitsMSB_eq_cons {e : Nat} (he : e ≠ 0) : bitsMSB e = true :: (bitsMSB e).tail := by
  rw [bitsMSB, List.range_succ, List.reverse_append, List.reverse_singleton, List.singleton_append,
    List.map_cons, Nat.testBit_log2 he, List.tail_cons]

/-- **The cost of a power of a variable**: `powCost e` constraints, and the result is a
variable. -/
theorem emits_pow_var {x : FieldVar} (hx : x.isConst = false) {e : Nat} (he : e ≠ 0) :
    Emits (x.pow e) (powCost e) (·.isConst = false) := by
  rw [pow_eq_foldlM, if_neg he, bitsMSB_eq_cons he, List.foldlM_cons, powCost,
    ← Nat.zero_add (List.sum _)]
  -- the leading step multiplies the constant one by `x`, which is free
  have hlead : Emits (powStep x (const 1) true) 0 (·.isConst = false) := fun s => by
    cases x with
    | const c => cases hx
    | var l v => exact ⟨rfl, rfl⟩
  exact Emits.bind hlead fun a ha => emits_foldlM_powStep hx _ a ha

/-- A power of a constant is a constant, and costs nothing. -/
theorem emits_pow_const (c : Fr) (e : Nat) : Emits ((const c).pow e) 0 (·.isConst = true) := by
  rw [pow_eq_foldlM]
  generalize (if e = 0 then [] else bitsMSB e) = bs
  have hstep : ∀ a (b : Bool), Emits (powStep (const c) (const a) b) 0 (·.isConst = true) := by
    intro a b s
    cases b <;> exact ⟨rfl, rfl⟩
  -- every step keeps a constant accumulator
  suffices h : ∀ a, Emits (bs.foldlM (powStep (const c)) (const a)) 0 (·.isConst = true) from h 1
  induction bs with
  | nil => exact fun a => emits_pure rfl
  | cons b bs ih =>
    intro a
    rw [List.foldlM_cons, ← Nat.zero_add 0]
    refine Emits.bind (hstep a b) fun r hr => ?_
    cases r with
    | const a' => exact ih a'
    | var l v => cases hr

/-! ### Nonzero and equality tests -/

theorem run_isNonzero (δ : LinComb) (d : Fr) (s : System) :
    (isNonzero δ d).run s =
      (.pos (.wit s.witnesses.size) (decide (d ≠ 0)),
        { s with
          witnesses := (s.witnesses.push (BoolVar.bitValue (decide (d ≠ 0)))).push
            (if d ≠ 0 then d⁻¹ else 1)
          constraints := ((s.constraints.push
              ⟨LinComb.const 1 - ofVar (.wit s.witnesses.size), ofVar (.wit s.witnesses.size), zero⟩).push
              ⟨δ, ofVar (.wit (s.witnesses.push (BoolVar.bitValue (decide (d ≠ 0)))).size),
                ofVar (.wit s.witnesses.size)⟩).push
              ⟨δ, LinComb.const 1 - ofVar (.wit s.witnesses.size), zero⟩ }) :=
  rfl

theorem le_isNonzero (δ : LinComb) (d : Fr) (s : System) : s ≤ ((isNonzero δ d).run s).2 := by
  unfold isNonzero
  exact Grows.le s

@[simp] theorem value_isNonzero (δ : LinComb) (d : Fr) (s : System) :
    ((isNonzero δ d).run s).1.value = decide (d ≠ 0) := by
  rw [run_isNonzero]
  rfl

/-- **The nonzero test is sound.** Whatever multiplier the prover supplies, `δ · m = b` and
`δ · (1 - b) = 0` leave `b = 1` when `δ` is nonzero (the second) and `b = 0` when it is zero (the
first). -/
theorem isNonzero_sound (hone : asg Var.one = 1) {δ : LinComb} {d : Fr} {s : System}
    (h : System.HoldsBetween s ((isNonzero δ d).run s).2 asg) :
    ((isNonzero δ d).run s).1.ReadsAs asg (decide (δ.eval asg ≠ 0)) := by
  rw [run_isNonzero] at h ⊢
  simp only [System.holdsBetween_iff_toList, Array.toList_push, List.append_assoc, List.cons_append,
    List.nil_append, List.drop_left, List.mem_cons, List.not_mem_nil, or_false, forall_eq_or_imp,
    forall_eq, Constraint.Holds, eval_sub, eval_const, eval_ofVar, eval_zero, hone, one_mul] at h
  obtain ⟨-, hprod, hzero⟩ := h
  rw [BoolVar.readsAs_pos]
  by_cases hδ : δ.eval asg = 0
  · rw [hδ, zero_mul] at hprod
    simp [hδ, ← hprod]
  · have hb : 1 - asg (.wit s.witnesses.size) = 0 := (mul_eq_zero.1 hzero).resolve_left hδ
    simp only [hδ, ne_eq, not_false_eq_true, decide_true, BoolVar.bitValue_true]
    linear_combination -hb

/-- **The nonzero test is complete.** The recorded bit and multiplier satisfy its three
constraints; for a nonzero difference the multiplier is its inverse, which exists because `r` is
prime. -/
theorem isNonzero_complete (hone : asg Var.one = 1) {δ : LinComb} {d : Fr} {s : System}
    (hδ : δ.eval asg = d) (hagree : ((isNonzero δ d).run s).2.Agrees asg) :
    System.HoldsBetween s ((isNonzero δ d).run s).2 asg ∧
      ((isNonzero δ d).run s).1.Honest asg := by
  rw [run_isNonzero] at hagree ⊢
  have hb : asg (.wit s.witnesses.size) = BoolVar.bitValue (decide (d ≠ 0)) := by
    rw [hagree.2 s.witnesses.size (by simp)]
    simp [Array.getElem_push]
  have hm : asg (.wit (s.witnesses.push (BoolVar.bitValue (decide (d ≠ 0)))).size) =
      if d ≠ 0 then d⁻¹ else 1 := by
    rw [hagree.2 _ (by simp)]
    simp [Array.getElem_push]
  refine ⟨?_, BoolVar.readsAs_pos.2 hb⟩
  simp only [System.holdsBetween_iff_toList, Array.toList_push, List.append_assoc, List.cons_append,
    List.nil_append, List.drop_left, List.mem_cons, List.not_mem_nil, or_false, forall_eq_or_imp,
    forall_eq, Constraint.Holds, eval_sub, eval_const, eval_ofVar, eval_zero, hone, one_mul, hb, hm, hδ]
  by_cases hd : d = 0
  · simp [hd]
  · simp [hd, Residue.mul_inv_cancel hd]

theorem run_isEq_const_var (c : Fr) (l : LinComb) (v : Fr) (s : System) :
    ((const c).isEq (var l v)).run s =
      (((isNonzero (LinComb.const c - l) (c - v)).run s).1.not,
        ((isNonzero (LinComb.const c - l) (c - v)).run s).2) :=
  rfl

theorem run_isEq_var_var (l₁ l₂ : LinComb) (v₁ v₂ : Fr) (s : System) :
    ((var l₁ v₁).isEq (var l₂ v₂)).run s =
      (((isNonzero (l₁ - l₂) (v₁ - v₂)).run s).1.not, ((isNonzero (l₁ - l₂) (v₁ - v₂)).run s).2) :=
  rfl

theorem run_isEq_var_const (l : LinComb) (v c : Fr) (s : System) :
    ((var l v).isEq (const c)).run s =
      (((isNonzero (LinComb.const c - l) (c - v)).run s).1.not,
        ((isNonzero (LinComb.const c - l) (c - v)).run s).2) :=
  rfl

theorem le_isEq (x y : FieldVar) (s : System) : s ≤ ((x.isEq y).run s).2 := by
  cases x <;> cases y
  case const.const => exact le_rfl
  all_goals exact le_isNonzero _ _ s

/-- **Soundness of the equality test**: its result reads as whether the two evaluations agree. -/
theorem isEq_sound (hone : asg Var.one = 1) {x y : FieldVar} {s : System}
    (h : System.HoldsBetween s ((x.isEq y).run s).2 asg) :
    ((x.isEq y).run s).1.ReadsAs asg (decide (x.lc.eval asg = y.lc.eval asg)) := by
  -- each non-constant case tests the difference for nonzero and negates the answer
  have hnot : ∀ {δ : LinComb} {d : Fr}, System.HoldsBetween s ((isNonzero δ d).run s).2 asg →
      ((isNonzero δ d).run s).1.not.ReadsAs asg (decide (δ.eval asg = 0)) := fun h' => by
    simpa using (isNonzero_sound hone h').not hone
  cases x with
  | const a =>
    cases y with
    | const b =>
      refine (BoolVar.readsAs_const hone).2 ?_
      simp [eval_lc_const hone]
    | var l v =>
      rw [run_isEq_const_var] at h ⊢
      refine (hnot h).decide_congr ?_
      rw [eval_sub, sub_eq_zero]
      rfl
  | var l₁ v₁ =>
    cases y with
    | const c =>
      rw [run_isEq_var_const] at h ⊢
      refine (hnot h).decide_congr ?_
      rw [eval_sub, sub_eq_zero, eq_comm]
      rfl
    | var l₂ v₂ =>
      rw [run_isEq_var_var] at h ⊢
      refine (hnot h).decide_congr ?_
      rw [eval_sub, sub_eq_zero]
      rfl

/-- The recorded answer of the equality test. -/
@[simp] theorem value_isEq (x y : FieldVar) (s : System) :
    ((x.isEq y).run s).1.value = decide (x.value = y.value) := by
  cases x with
  | const a =>
    cases y with
    | const b => rfl
    | var l v =>
      rw [run_isEq_const_var, BoolVar.value_not, value_isNonzero, decide_not, Bool.not_not]
      exact decide_eq_decide.2 sub_eq_zero
  | var l₁ v₁ =>
    cases y with
    | const c =>
      rw [run_isEq_var_const, BoolVar.value_not, value_isNonzero, decide_not, Bool.not_not]
      exact decide_eq_decide.2 (sub_eq_zero.trans eq_comm)
    | var l₂ v₂ =>
      rw [run_isEq_var_var, BoolVar.value_not, value_isNonzero, decide_not, Bool.not_not]
      exact decide_eq_decide.2 sub_eq_zero

theorem isEq_complete (hone : asg Var.one = 1) {x y : FieldVar} {s : System}
    (hx : x.Honest asg) (hy : y.Honest asg) (hagree : ((x.isEq y).run s).2.Agrees asg) :
    System.HoldsBetween s ((x.isEq y).run s).2 asg ∧ ((x.isEq y).run s).1.Honest asg := by
  cases x with
  | const a =>
    cases y with
    | const b =>
      refine ⟨System.holdsBetween_refl s asg, ?_⟩
      exact (BoolVar.readsAs_const hone).2 rfl
    | var l v =>
      rw [run_isEq_const_var] at hagree ⊢
      obtain ⟨h, hb⟩ := isNonzero_complete hone
        (by rw [eval_sub, eval_const, hone, mul_one, show l.eval asg = v from hy]) hagree
      exact ⟨h, hb.not hone⟩
  | var l₁ v₁ =>
    cases y with
    | const c =>
      rw [run_isEq_var_const] at hagree ⊢
      obtain ⟨h, hb⟩ := isNonzero_complete hone
        (by rw [eval_sub, eval_const, hone, mul_one, show l₁.eval asg = v₁ from hx]) hagree
      exact ⟨h, hb.not hone⟩
    | var l₂ v₂ =>
      rw [run_isEq_var_var] at hagree ⊢
      obtain ⟨h, hb⟩ := isNonzero_complete hone
        (by rw [eval_sub, show l₁.eval asg = v₁ from hx, show l₂.eval asg = v₂ from hy]) hagree
      exact ⟨h, hb.not hone⟩

/-! ### Demanding equality -/

theorem run_enforceEq_var (x : FieldVar) (l : LinComb) (v : Fr) (s : System) :
    (x.enforceEq (var l v)).run s =
      ((), { s with constraints := s.constraints.push ⟨x.lc - l, LinComb.const 1, zero⟩ }) := by
  cases x <;> rfl

/-- `(x - y) · 1 = 0` holds exactly when the evaluations agree. -/
theorem enforceEq_holds_iff (hone : asg Var.one = 1) (x : FieldVar) (l : LinComb) :
    (⟨x.lc - l, LinComb.const 1, zero⟩ : Constraint).Holds asg ↔ x.lc.eval asg = l.eval asg := by
  rw [Constraint.Holds, eval_sub, eval_const, eval_zero, hone, mul_one, mul_one, sub_eq_zero]

theorem holdsBetween_enforceEq_iff (hone : asg Var.one = 1) (x : FieldVar) (l : LinComb) (v : Fr)
    (s : System) : System.HoldsBetween s ((x.enforceEq (var l v)).run s).2 asg ↔
      x.lc.eval asg = l.eval asg := by
  rw [run_enforceEq_var]
  exact (System.holdsBetween_push rfl).trans (enforceEq_holds_iff hone x l)

/-- Demanding equality with a variable fails at its one constraint exactly when the evaluations
differ. -/
theorem firstFailure_enforceEq (hone : asg Var.one = 1) (x : FieldVar) (l : LinComb) (v : Fr)
    (s : System) : ((x.enforceEq (var l v)).run s).2.firstFailure asg =
      (s.firstFailure asg).or (if x.lc.eval asg = l.eval asg then none else some s.constraints.size) := by
  rw [run_enforceEq_var, System.firstFailure_of_constraints s rfl]
  by_cases he : x.lc.eval asg = l.eval asg
  · rw [if_pos ((enforceEq_holds_iff hone x l).2 he), if_pos he]
  · rw [if_neg (mt (enforceEq_holds_iff hone x l).1 he), if_neg he]

/-! ### Packing bits -/

/-- One step of packing bits: add the bit at the current weight, then double the weight. -/
def packStep (acc : LinComb × Fr × Fr) (b : BoolVar) : LinComb × Fr × Fr :=
  (acc.1 + LinComb.scale acc.2.2 b.lc, acc.2.1 + acc.2.2 * BoolVar.bitValue b.value,
    acc.2.2 + acc.2.2)

theorem ofBitsLE_eq (bits : List BoolVar) :
    ofBitsLE bits =
      if bits.all BoolVar.isConst then const (bits.foldl packStep (LinComb.zero, 0, 1)).2.1
      else var (bits.foldl packStep (LinComb.zero, 0, 1)).1
        (bits.foldl packStep (LinComb.zero, 0, 1)).2.1 := rfl

/-- `Σ 2ⁱ · xᵢ`, least significant first. -/
def weightedSum : List Fr → Fr
  | [] => 0
  | x :: xs => x + 2 * weightedSum xs

/-- Packing from an accumulator adds the weighted sum at the accumulator's weight. -/
theorem foldl_packStep (f : Assignment) (bits : List BoolVar) (acc : LinComb × Fr × Fr) :
    (bits.foldl packStep acc).1.eval f =
        acc.1.eval f + acc.2.2 * weightedSum (bits.map fun b => b.lc.eval f) ∧
      (bits.foldl packStep acc).2.1 =
        acc.2.1 + acc.2.2 * weightedSum (bits.map fun b => BoolVar.bitValue b.value) := by
  induction bits generalizing acc with
  | nil => simp [weightedSum]
  | cons b bits ih =>
    obtain ⟨h₁, h₂⟩ := ih (packStep acc b)
    rw [List.foldl_cons, h₁, h₂]
    constructor
    · simp only [packStep, eval_add, eval_scale, List.map_cons, weightedSum]
      ring
    · simp only [packStep, List.map_cons, weightedSum]
      ring

/-- Packed bits evaluate to the weighted sum of the bits' evaluations. -/
theorem eval_lc_ofBitsLE (hone : asg Var.one = 1) (bits : List BoolVar) :
    (ofBitsLE bits).lc.eval asg = weightedSum (bits.map fun b => b.lc.eval asg) := by
  obtain ⟨h₁, -⟩ := foldl_packStep asg bits (LinComb.zero, 0, 1)
  rw [ofBitsLE_eq]
  split
  · next hconst =>
    -- constant bits evaluate to their own bits
    have hmap : bits.map (fun b => b.lc.eval asg) = bits.map fun b => BoolVar.bitValue b.value := by
      apply List.map_congr_left
      intro b hb
      have hb' := List.all_eq_true.1 hconst b hb
      cases b with
      | const c => exact (BoolVar.readsAs_const hone).2 rfl
      | pos _ _ => cases hb'
      | neg _ _ => cases hb'
    obtain ⟨-, h₂⟩ := foldl_packStep asg bits (LinComb.zero, 0, 1)
    rw [eval_lc_const hone, h₂, hmap]
    simp
  · rw [eval_lc_var, h₁]
    simp

@[simp] theorem value_ofBitsLE (bits : List BoolVar) :
    (ofBitsLE bits).value = weightedSum (bits.map fun b => BoolVar.bitValue b.value) := by
  obtain ⟨-, h₂⟩ := foldl_packStep (fun _ => 0) bits (LinComb.zero, 0, 1)
  rw [ofBitsLE_eq]
  split <;> simp [h₂]

theorem Honest.ofBitsLE (hone : asg Var.one = 1) {bits : List BoolVar}
    (hbits : ∀ b ∈ bits, b.Honest asg) : (ofBitsLE bits).Honest asg := by
  rw [Honest, eval_lc_ofBitsLE hone, value_ofBitsLE]
  congr 1
  exact List.map_congr_left hbits

end FieldVar

end Circuit

end ZkPolicy
