import ZkPolicy.Proofs.Circuit.Gates

/-!
# Bit budgets and the age comparator

A bit budget binds a field element to `n` boolean witnesses whose weighted sum `Σ bᵢ·2ⁱ` it
must equal. This module says what that equation means, on the witnesses the builder allocates
for a word and on any booleans at all, and what it gives the comparison of the age gate.

* `sum_wordBit`: the bits a budget allocates for a word, `(raw >>> i) &&& 1`, sum to the word
  modulo `2ⁿ`; so the decomposition holds of the word's element exactly when the word fits in
  `n` bits (`sum_wordBit_eq_ofWord_iff`), and the honest run of the budget fails at its
  decomposition constraint exactly when it does not (`enforceBitBudget_checks_fits`).
* `exists_bits_iff`, `bits_unique`: an element is a weighted sum of `n` booleans exactly when
  its representative is below `2ⁿ`, and then of one choice of booleans only, as long as `2ⁿ`
  stays below `r`. Both go through `bitsNumber`, the number the booleans spell, which is below
  `2ⁿ` and so casts into the field without wrapping.
* `ageDiff_spec`: for an age and a required age below `2⁸`, the comparison word
  `age + 2⁸ - required` of the age gate, computed with wrapping, does not wrap: it lies in
  `[1, 511]`, its element is `age + 2⁸ - required` in the field, and its bit 8 is set exactly
  when the age reaches the required one.
* `bit_budget_decomposition`: all of it.
-/

namespace ZkPolicy

namespace Fr

/-- The representative of an element casts back to it. -/
theorem natCast_val (v : Fr) : ((v.val : ℕ) : Fr) = v := by
  obtain ⟨k, hk⟩ := v
  show Residue.ofNat Fr.modulus k = ⟨k, hk⟩
  simp [Residue.ofNat, Nat.mod_eq_of_lt hk]

/-- Up to 252 bits fit below `r`. -/
theorem two_pow_lt_modulus {n : ℕ} (hn : n < 253) : 2 ^ n < Fr.modulus :=
  calc 2 ^ n ≤ 2 ^ 252 := Nat.pow_le_pow_right (by decide) (by omega)
    _ < Fr.modulus := by decide

end Fr

namespace Circuit

open BoolVar

/-! ### Booleans and the number they spell -/

/-- Lists of bits of one length that spell one number are equal. -/
theorem bitsNumber_injective {bs bs' : List Bool} (hlen : bs.length = bs'.length)
    (h : bitsNumber bs = bitsNumber bs') : bs = bs' := by
  induction bs generalizing bs' with
  | nil => exact (List.eq_nil_of_length_eq_zero hlen.symm).symm
  | cons b bs ih =>
    obtain ⟨b', bs', rfl⟩ := List.exists_cons_of_length_eq_add_one hlen.symm
    rw [bitsNumber_cons, bitsNumber_cons] at h
    -- the low bit is the parity, the rest is the half
    have hb := Bool.toNat_le b
    have hb' := Bool.toNat_le b'
    have hlow : b = b' := by
      cases b <;> cases b' <;> simp only [Bool.toNat_true, Bool.toNat_false] at h <;>
        first | rfl | omega
    have hrest : bitsNumber bs = bitsNumber bs' := by omega
    rw [hlow, ih (by simpa using hlen) hrest]

/-- The weighted sum of booleans in the field is the cast of the number they spell. -/
theorem sum_bitValue_eq_bitsNumber {n : ℕ} (b : Fin n → Bool) :
    ∑ i : Fin n, bitValue (b i) * 2 ^ (i : ℕ) = (bitsNumber (List.ofFn b) : Fr) := by
  induction n with
  | zero => simp
  | succ n ih =>
    rw [Fin.sum_univ_succ, List.ofFn_succ, bitsNumber_cons]
    have htail := ih (fun i => b i.succ)
    simp only [Fin.val_succ, pow_succ] at htail ⊢
    -- the tail's weights are twice those of a sum of its own
    calc bitValue (b 0) * 2 ^ 0 + ∑ i : Fin n, bitValue (b i.succ) * (2 ^ (i : ℕ) * 2)
        = bitValue (b 0) + 2 * ∑ i : Fin n, bitValue (b i.succ) * 2 ^ (i : ℕ) := by
          rw [Finset.mul_sum]
          simp only [pow_zero, mul_one]
          congr 1
          exact Finset.sum_congr rfl fun i _ => by ring
      _ = ((b 0).toNat + 2 * bitsNumber (List.ofFn fun i => b i.succ) : ℕ) := by
          rw [htail, bitValue_eq_natCast]
          push_cast
          rfl

theorem bitsNumber_ofFn_lt {n : ℕ} (b : Fin n → Bool) : bitsNumber (List.ofFn b) < 2 ^ n := by
  simpa using bitsNumber_lt (List.ofFn b)

/-- Listing a function on the first `n` positions is mapping it over `range n`. -/
theorem ofFn_comp_val {n : ℕ} (f : ℕ → Bool) :
    List.ofFn (fun i : Fin n => f i) = (List.range n).map f := by
  rw [List.ofFn_eq_map, ← List.map_coe_finRange_eq_range, List.map_map]
  rfl

/-! ### Any booleans -/

section Decomposition

variable {n : ℕ}

/-- **Existence of a decomposition.** An element is a weighted sum of `n` booleans exactly when
its representative is below `2ⁿ`: its own low bits are such booleans. -/
theorem exists_bits_iff (hn : n < 253) (v : Fr) :
    (∃ b : Fin n → Bool, ∑ i, bitValue (b i) * 2 ^ (i : ℕ) = v) ↔ v.val < 2 ^ n := by
  constructor
  · rintro ⟨b, hb⟩
    -- the number the booleans spell is below `2ⁿ < r`, so it is the representative
    have hlt := bitsNumber_ofFn_lt b
    rw [sum_bitValue_eq_bitsNumber] at hb
    rw [← hb, Fr.val_natCast, Nat.mod_eq_of_lt (hlt.trans (Fr.two_pow_lt_modulus hn))]
    exact hlt
  · intro hv
    refine ⟨fun i => v.val.testBit i, ?_⟩
    rw [sum_bitValue_eq_bitsNumber, ofFn_comp_val, bitsNumber_testBit, Nat.mod_eq_of_lt hv,
      Fr.natCast_val]

/-- **Uniqueness of a decomposition.** Two choices of `n` booleans with one weighted sum are
equal: the numbers they spell are below `2ⁿ < r`, so they are equal as numbers. -/
theorem bits_unique (hn : n < 253) {b b' : Fin n → Bool}
    (h : ∑ i, bitValue (b i) * 2 ^ (i : ℕ) = ∑ i, bitValue (b' i) * 2 ^ (i : ℕ)) : b = b' := by
  rw [sum_bitValue_eq_bitsNumber, sum_bitValue_eq_bitsNumber] at h
  have hr := Fr.two_pow_lt_modulus hn
  have hnum := (Fr.natCast_inj ((bitsNumber_ofFn_lt b).trans hr)
    ((bitsNumber_ofFn_lt b').trans hr)).1 h
  exact List.ofFn_injective (bitsNumber_injective (by simp) hnum)

end Decomposition

/-! ### The bits of a word -/

section Word

variable {n : ℕ}

/-- The weighted sum of the allocated bits is the cast of the number they spell. -/
theorem sum_wordBit_eq_bitsNumber (raw : UInt64) (n : ℕ) :
    ∑ i : Fin n, bitValue (decide ((raw >>> (i : ℕ).toUInt64) &&& 1 = 1)) * 2 ^ (i : ℕ) =
      (bitsNumber (wordBits raw n) : Fr) := by
  rw [sum_bitValue_eq_bitsNumber, ofFn_comp_val (fun i => decide ((raw >>> i.toUInt64) &&& 1 = 1))]
  rfl

/-- **The allocated bits.** The bits a budget allocates for a word sum to the word modulo
`2ⁿ`. -/
theorem sum_wordBit (raw : UInt64) (hn : n ≤ 64) :
    ∑ i : Fin n, bitValue (decide ((raw >>> (i : ℕ).toUInt64) &&& 1 = 1)) * 2 ^ (i : ℕ) =
      ((raw.toNat % 2 ^ n : ℕ) : Fr) := by
  rw [sum_wordBit_eq_bitsNumber, bitsNumber_wordBits raw hn]

/-- The allocated bits sum to the word's element exactly when the word fits in `n` bits. -/
theorem sum_wordBit_eq_ofWord_iff (raw : UInt64) (hn : n ≤ 64) :
    ∑ i : Fin n, bitValue (decide ((raw >>> (i : ℕ).toUInt64) &&& 1 = 1)) * 2 ^ (i : ℕ) =
      Fr.ofWord raw ↔ raw.toNat < 2 ^ n := by
  rw [sum_wordBit_eq_bitsNumber]
  exact bitsNumber_wordBits_eq_ofWord_iff raw hn

variable {asg : Assignment}

/-- **The decomposition constraint.** On an honest element holding a word, the budget's honest
run fails, at its decomposition constraint after the `n` booleans, exactly when the word does
not fit in `n` bits. -/
theorem enforceBitBudget_checks_fits (hone : asg Var.one = 1) (raw : UInt64) (hn : n ≤ 64)
    {x : FieldVar} (hx : x.Honest asg) (hxv : x.value = Fr.ofWord raw) (hxc : x.isConst = false) :
    Checks asg (enforceBitBudget raw x n) [(decide (raw.toNat < 2 ^ n), n)]
      fun bits => List.Forall₂ (Records asg) bits (wordBits raw n) := by
  refine (enforceBitBudget_checks hone raw n hx hxc).congr ?_
  simp [hxv, bitsNumber_wordBits_eq_ofWord_iff raw hn]

end Word

/-! ### The age comparator -/

/-- **The comparison word.** For an age and a required age below `2⁸`, `age + 2⁸ - required`
computed with wrapping is the number itself, in `[1, 511]`; its element is the field's
`age + 2⁸ - required`; and its bit 8 is set exactly when the age reaches the required one. -/
theorem ageDiff_spec {age required : UInt64} (ha : age < 256) (hr : required < 256) :
    (age + 1 <<< ageBits.toUInt64 - required).toNat = age.toNat + 256 - required.toNat ∧
      1 ≤ (age + 1 <<< ageBits.toUInt64 - required).toNat ∧
      (age + 1 <<< ageBits.toUInt64 - required).toNat ≤ 511 ∧
      Fr.ofWord (age + 1 <<< ageBits.toUInt64 - required) =
        Fr.ofWord age + 256 - Fr.ofWord required ∧
      ((age + 1 <<< ageBits.toUInt64 - required) >>> 8 &&& 1 = 1 ↔ required ≤ age) := by
  have ha' : age.toNat < 256 := by simpa [UInt64.lt_iff_toNat_lt] using ha
  have hr' : required.toNat < 256 := by simpa [UInt64.lt_iff_toNat_lt] using hr
  -- neither the sum nor the difference wraps
  have htoNat : (age + 1 <<< ageBits.toUInt64 - required).toNat = age.toNat + 256 - required.toNat := by
    simp [UInt64.toNat_add, UInt64.toNat_sub, ageBits]
    omega
  obtain ⟨-, htop⟩ := ageDiff_wordBits ha hr
  refine ⟨htoNat, by omega, by omega, ?_, ?_⟩
  · rw [Fr.ofWord_eq_natCast, htoNat, Nat.cast_sub (by omega), Nat.cast_add, ← Fr.ofWord_eq_natCast,
      ← Fr.ofWord_eq_natCast]
    rfl
  · -- bit 8 is the ninth bit the budget allocates
    have h8 : (8 : ℕ).toUInt64 = 8 := rfl
    simp only [wordBits, ageBits, h8, List.getD_eq_getElem?_getD, List.getElem?_map,
      List.getElem?_range (by omega : 8 < 8 + 1), Option.map_some, Option.getD_some,
      decide_eq_decide] at htop ⊢
    exact htop

/-- **Bit budgets and the age comparator.** For every word and every budget of at most 63
bits, the bits the budget allocates, `(raw >>> i) &&& 1` for `i < n`, sum with weights `2ⁱ` to
the word modulo `2ⁿ`; their sum is the word's element exactly when the word is below `2ⁿ`, and
on an honest element holding the word the budget's honest run fails at its decomposition
constraint exactly when it is not. For every element and every `n < 253`, booleans
`b₀ … bₙ₋₁` with `Σ bᵢ·2ⁱ` equal to it exist exactly when its representative is below `2ⁿ`,
and they are unique. For an age and a required age below 256, the comparison word
`age + 2⁸ - required`, computed with wrapping, is the number `age + 256 - required`, lies in
`[1, 511]`, has the element `age + 256 - required` of the field, and has bit 8 set exactly when
`required ≤ age`. -/
theorem bit_budget_decomposition :
    (∀ (raw : UInt64) (n : ℕ), n ≤ 63 →
      (∑ i : Fin n, bitValue (decide ((raw >>> (i : ℕ).toUInt64) &&& 1 = 1)) * 2 ^ (i : ℕ) =
          ((raw.toNat % 2 ^ n : ℕ) : Fr)) ∧
      (∑ i : Fin n, bitValue (decide ((raw >>> (i : ℕ).toUInt64) &&& 1 = 1)) * 2 ^ (i : ℕ) =
          Fr.ofWord raw ↔ raw.toNat < 2 ^ n) ∧
      ∀ (asg : Assignment) (x : FieldVar), asg Var.one = 1 → x.Honest asg →
        x.value = Fr.ofWord raw → x.isConst = false →
        Checks asg (enforceBitBudget raw x n) [(decide (raw.toNat < 2 ^ n), n)]
          fun bits => List.Forall₂ (Records asg) bits (wordBits raw n)) ∧
    (∀ (v : Fr) (n : ℕ), n < 253 →
      ((∃ b : Fin n → Bool, ∑ i, bitValue (b i) * 2 ^ (i : ℕ) = v) ↔ v.val < 2 ^ n) ∧
      ∀ b b' : Fin n → Bool, ∑ i, bitValue (b i) * 2 ^ (i : ℕ) = v →
        ∑ i, bitValue (b' i) * 2 ^ (i : ℕ) = v → b = b') ∧
    (∀ age required : UInt64, age < 256 → required < 256 →
      (age + 1 <<< ageBits.toUInt64 - required).toNat = age.toNat + 256 - required.toNat ∧
      1 ≤ (age + 1 <<< ageBits.toUInt64 - required).toNat ∧
      (age + 1 <<< ageBits.toUInt64 - required).toNat ≤ 511 ∧
      Fr.ofWord (age + 1 <<< ageBits.toUInt64 - required) =
        Fr.ofWord age + 256 - Fr.ofWord required ∧
      ((age + 1 <<< ageBits.toUInt64 - required) >>> 8 &&& 1 = 1 ↔ required ≤ age)) := by
  refine ⟨fun raw n hn => ?_, fun v n hn => ?_, fun age required ha hr => ageDiff_spec ha hr⟩
  · -- a budget of at most 63 bits reads only bits of the word
    have h64 : n ≤ 64 := by omega
    exact ⟨sum_wordBit raw h64, sum_wordBit_eq_ofWord_iff raw h64,
      fun asg x hone hx hxv hxc => enforceBitBudget_checks_fits hone raw h64 hx hxv hxc⟩
  · exact ⟨exists_bits_iff hn v, fun b b' hb hb' => bits_unique hn (hb.trans hb'.symm)⟩

end Circuit

end ZkPolicy
