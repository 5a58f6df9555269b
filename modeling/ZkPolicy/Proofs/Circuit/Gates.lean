import ZkPolicy.Proofs.Circuit.Checks
import ZkPolicy.Proofs.Circuit.SpongeCost
import ZkPolicy.Policy.Circuit

/-!
# The gates of the policy circuit

Each gate of the policy circuit is specified three ways: how many constraints it emits
(`emits_…`), where its honest run first fails (`…_checks`, in the sense of `Checks`), and what
its constraints force under every assignment (`…_sound`). The checks say which conditions on the
raw words a gate reports and at which of its constraints; soundness says what a prover who
satisfies the gate has shown about the values of its variables.

* Bits. `bitsNumber` is the number of little-endian bits; it is below `2ⁿ` for `n` bits
  (`bitsNumber_lt`), its top bit says whether it reaches `2ⁿ⁻¹` (`two_pow_le_bitsNumber_iff`),
  and the field sum of bits is its cast (`weightedSum_map_bitValue`). Numbers below `r` cast
  injectively (`Fr.natCast_inj`), so a bit budget's field equation is one of numbers.
* `enforceBoolean` reports a word that is not 0 or 1; `enforceBitBudget` a word that does not fit
  in its budget, and forces the value of its variable to be a number of that many bits.
* `ageGate`, `genderGate`, `nationalityGate` report their conditions in order: the age gate the
  two 8-bit budgets and then the comparison (exact once both fit, since `age + 2⁸ - required`
  does not wrap), the gender gate the two bits and then their equality, the nationality gate
  membership among the nonzero countries.
* `commitmentVar` adds no failure, and its result is the native commitment of its inputs.
-/

namespace ZkPolicy

namespace Circuit

open LinComb BoolVar

/-! ### Numbers of bits -/

/-- The number whose little-endian bits are `bs`. -/
def bitsNumber : List Bool → Nat
  | [] => 0
  | b :: bs => b.toNat + 2 * bitsNumber bs

@[simp] theorem bitsNumber_nil : bitsNumber [] = 0 := rfl

@[simp] theorem bitsNumber_cons (b : Bool) (bs : List Bool) :
    bitsNumber (b :: bs) = b.toNat + 2 * bitsNumber bs := rfl

theorem bitsNumber_lt (bs : List Bool) : bitsNumber bs < 2 ^ bs.length := by
  induction bs with
  | nil => simp
  | cons b bs ih =>
    have hb := Bool.toNat_le b
    rw [bitsNumber_cons, List.length_cons, pow_succ]
    omega

theorem bitsNumber_append_singleton (bs : List Bool) (b : Bool) :
    bitsNumber (bs ++ [b]) = bitsNumber bs + 2 ^ bs.length * b.toNat := by
  induction bs with
  | nil => simp
  | cons c bs ih =>
    rw [List.cons_append, bitsNumber_cons, ih, bitsNumber_cons, List.length_cons, pow_succ]
    ring

/-- The top bit of a number of `n + 1` bits says whether it reaches `2ⁿ`. -/
theorem two_pow_le_bitsNumber_iff {bs : List Bool} {n : Nat} (hlen : bs.length = n + 1) :
    2 ^ n ≤ bitsNumber bs ↔ bs.getD n false = true := by
  induction bs generalizing n with
  | nil => simp at hlen
  | cons b bs ih =>
    have hb := Bool.toNat_le b
    cases n with
    | zero =>
      have hbs : bs = [] := List.eq_nil_of_length_eq_zero (by simpa using hlen)
      subst hbs
      cases b <;> simp
    | succ n =>
      -- the low bit cannot make up for the higher ones
      have ih' := ih (by simpa using hlen)
      rw [bitsNumber_cons, List.getD_cons_succ, ← ih', pow_succ]
      omega

/-- The low `n` bits of `k` spell `k` modulo `2ⁿ`. -/
theorem bitsNumber_testBit (k n : Nat) : bitsNumber ((List.range n).map k.testBit) = k % 2 ^ n := by
  induction n with
  | zero => simp [Nat.mod_one]
  | succ n ih =>
    rw [List.range_succ, List.map_append, List.map_singleton, bitsNumber_append_singleton, ih,
      List.length_map, List.length_range, Nat.toNat_testBit, Nat.mod_pow_succ]

/-- The field sum of bits is their number. -/
theorem weightedSum_map_bitValue (bs : List Bool) :
    FieldVar.weightedSum (bs.map bitValue) = (bitsNumber bs : Fr) := by
  induction bs with
  | nil => simp [FieldVar.weightedSum]
  | cons b bs ih =>
    rw [List.map_cons, FieldVar.weightedSum, ih, bitsNumber_cons]
    cases b <;> simp

/-! ### The bits of a word -/

/-- The `n` low bits of a word, as the bit budget allocates them. -/
def wordBits (raw : UInt64) (n : Nat) : List Bool :=
  (List.range n).map fun i => decide ((raw >>> i.toUInt64) &&& 1 = 1)

@[simp] theorem length_wordBits (raw : UInt64) (n : Nat) : (wordBits raw n).length = n := by
  simp [wordBits]

theorem wordBits_eq (raw : UInt64) {n : Nat} (hn : n ≤ 64) :
    wordBits raw n = (List.range n).map raw.toNat.testBit := by
  apply List.map_congr_left
  intro i hi
  have hi' : i < 64 := by
    have := List.mem_range.1 hi
    omega
  -- the shifted word's low bit is the `i`-th bit of its number
  have hbit : ((raw >>> i.toUInt64) &&& 1 = 1) ↔ raw.toNat.testBit i := by
    rw [← UInt64.toNat_inj]
    simp only [UInt64.toNat_and, UInt64.toNat_shiftRight]
    simp only [Nat.toUInt64_eq, UInt64.toNat_ofNat', Nat.reducePow, UInt64.reduceToNat,
      Nat.and_one_is_mod]
    rw [Nat.mod_eq_of_lt (by omega : i < 18446744073709551616), Nat.mod_eq_of_lt hi',
      Nat.shiftRight_eq_div_pow, ← Nat.toNat_testBit]
    cases raw.toNat.testBit i <;> simp
  simp only [hbit, Bool.decide_eq_true]

theorem bitsNumber_wordBits (raw : UInt64) {n : Nat} (hn : n ≤ 64) :
    bitsNumber (wordBits raw n) = raw.toNat % 2 ^ n := by
  rw [wordBits_eq raw hn, bitsNumber_testBit]

end Circuit

/-! ### Numbers below the modulus -/

namespace Fr

theorem val_natCast (k : Nat) : (k : Fr).val = k % Fr.modulus := rfl

theorem ofWord_eq_natCast (w : UInt64) : Fr.ofWord w = (w.toNat : Fr) := rfl

/-- Numbers below `r` are distinct elements. -/
theorem natCast_inj {a b : Nat} (ha : a < Fr.modulus) (hb : b < Fr.modulus) :
    (a : Fr) = (b : Fr) ↔ a = b := by
  constructor
  · intro h
    have hv := congrArg Residue.val h
    rwa [val_natCast, val_natCast, Nat.mod_eq_of_lt ha, Nat.mod_eq_of_lt hb] at hv
  · rintro rfl
    rfl

theorem ofWord_inj {a b : UInt64} : Fr.ofWord a = Fr.ofWord b ↔ a = b := by
  rw [ofWord_eq_natCast, ofWord_eq_natCast, natCast_inj (word_lt_modulus a) (word_lt_modulus b),
    UInt64.toNat_inj]

end Fr

namespace Circuit

open LinComb BoolVar

theorem bitValue_eq_natCast (β : Bool) : bitValue β = (β.toNat : Fr) := by
  cases β <;> simp

/-- A word's element is the bit of `raw = 1` exactly when the word is 0 or 1. -/
theorem bitValue_eq_ofWord_iff (raw : UInt64) :
    bitValue (decide (raw = 1)) = Fr.ofWord raw ↔ raw ≤ 1 := by
  have hbit : (decide (raw = 1)).toNat < Fr.modulus :=
    lt_of_le_of_lt (Bool.toNat_le _) (by decide)
  rw [bitValue_eq_natCast, Fr.ofWord_eq_natCast, Fr.natCast_inj hbit (Fr.word_lt_modulus raw),
    UInt64.le_iff_toNat_le]
  have h1 : raw = 1 ↔ raw.toNat = 1 := by
    rw [← UInt64.toNat_inj]
    rfl
  by_cases h : raw.toNat = 1
  · simp [h1, h]
  · simp only [h1, h, decide_false, Bool.toNat_false, UInt64.toNat_one]
    omega

/-- A word's element is a number of `n` bits exactly when the word fits in `n` bits. -/
theorem bitsNumber_wordBits_eq_ofWord_iff (raw : UInt64) {n : Nat} (hn : n ≤ 64) :
    (bitsNumber (wordBits raw n) : Fr) = Fr.ofWord raw ↔ raw.toNat < 2 ^ n := by
  have hlow : raw.toNat % 2 ^ n < Fr.modulus :=
    lt_of_le_of_lt (Nat.mod_le _ _) (Fr.word_lt_modulus raw)
  rw [bitsNumber_wordBits raw hn, Fr.ofWord_eq_natCast, Fr.natCast_inj hlow (Fr.word_lt_modulus raw)]
  constructor
  · intro h
    rw [← h]
    exact Nat.mod_lt _ (by positivity)
  · exact Nat.mod_eq_of_lt

/-! ### Lists of allocated bits -/

section Alloc

variable {γ : Type} {asg : Assignment}

/-- Allocating a list of bits emits one constraint each and returns variables recording them. -/
theorem emits_mapM_alloc (f : γ → Bool) (l : List γ) :
    Emits (l.mapM fun i => alloc (f i)) l.length
      fun bits => List.Forall₂ (fun b β => ∃ w, b = pos w β) bits (l.map f) := by
  refine Emits.cast (Emits.mono (Emits.mapM fun i _ => emits_alloc (f i)) fun bits h => ?_)
    (Nat.one_mul _)
  exact List.forall₂_map_right_iff.2 h

/-- Allocated bits record their values. -/
theorem mapM_alloc_records (hone : asg Var.one = 1) (f : γ → Bool) (l : List γ) :
    Complete asg (l.mapM fun i => alloc (f i))
      fun bits => List.Forall₂ (Records asg) bits (l.map f) := by
  refine (Complete.mapM fun i _ => alloc_records hone (f i)).mono fun bits h => ?_
  exact List.forall₂_map_right_iff.2 h

/-- Allocated bits are variables that read as bits. -/
theorem mapM_alloc_varReads (hone : asg Var.one = 1) (f : γ → Bool) :
    ∀ l : List γ, Sound asg (l.mapM fun i => alloc (f i))
      fun bits => ∃ βs, List.Forall₂ (VarReads asg) bits βs ∧ βs.length = l.length
  | [] => sound_pure ⟨[], List.Forall₂.nil, rfl⟩
  | i :: l => by
    rw [List.mapM_cons]
    refine Sound.bind (alloc_varReads hone (f i)) fun b hb => ?_
    obtain ⟨β, hb⟩ := hb
    refine Sound.bind (mapM_alloc_varReads hone f l) fun bits hbits => ?_
    obtain ⟨βs, hbits, hlen⟩ := hbits
    exact sound_pure ⟨β :: βs, List.Forall₂.cons hb hbits, by simp [hlen]⟩

/-- Bits that read as `βs` evaluate, bit by bit, to the bits of `βs`. -/
theorem map_eval_of_forall₂ {bits : List BoolVar} {βs : List Bool}
    (h : List.Forall₂ (fun b β => b.ReadsAs asg β) bits βs) :
    bits.map (fun b => b.lc.eval asg) = βs.map bitValue := by
  induction h with
  | nil => rfl
  | cons hb _ ih =>
    rw [List.map_cons, List.map_cons, ih]
    exact congrArg (· :: _) hb

/-- Packed bits that read as `βs` evaluate to the number of `βs`. -/
theorem eval_lc_ofBitsLE_of_forall₂ (hone : asg Var.one = 1) {bits : List BoolVar}
    {βs : List Bool} (h : List.Forall₂ (fun b β => b.ReadsAs asg β) bits βs) :
    (FieldVar.ofBitsLE bits).lc.eval asg = (bitsNumber βs : Fr) := by
  rw [FieldVar.eval_lc_ofBitsLE hone, map_eval_of_forall₂ h, weightedSum_map_bitValue]

end Alloc

/-! ### Growth of the gates -/

instance grows_enforceBoolean {raw : UInt64} {x : FieldVar} : Grows (enforceBoolean raw x) := by
  unfold enforceBoolean
  infer_instance

instance grows_enforceBitBudget {raw : UInt64} {x : FieldVar} {n : Nat} :
    Grows (enforceBitBudget raw x n) := by
  unfold enforceBitBudget
  infer_instance

/-! ### Booleans bound to a word -/

section Boolean

variable {asg : Assignment}

theorem emits_enforceBoolean (raw : UInt64) {x : FieldVar} (hxc : x.isConst = false) :
    Emits (enforceBoolean raw x) 2 fun b => ∃ w, b = pos w (decide (raw = 1)) := by
  cases x with
  | const c => cases hxc
  | var l v =>
    unfold enforceBoolean
    -- one constraint for the bit, one binding it to the element
    refine Emits.cast ?_ (show 1 + (1 + 0) = 2 from rfl)
    refine Emits.bind (emits_alloc _) fun b hb => ?_
    exact Emits.bind (FieldVar.emits_enforceEq_var _ l v) fun _ _ => emits_pure hb

/-- **Checks of a boolean word.** The honest run fails at its second constraint exactly when the
word is neither 0 nor 1, and its result records whether the word is 1. -/
theorem enforceBoolean_checks (hone : asg Var.one = 1) (raw : UInt64) {x : FieldVar}
    (hx : x.Honest asg) (hxv : x.value = Fr.ofWord raw) (hxc : x.isConst = false) :
    Checks asg (enforceBoolean raw x) [(decide (raw ≤ 1), 1)] (·.Records asg (decide (raw = 1))) := by
  cases x with
  | const c => cases hxc
  | var l v =>
    obtain rfl : v = Fr.ofWord raw := hxv
    have hl : l.eval asg = Fr.ofWord raw := hx
    unfold enforceBoolean
    apply Checks.congr
    · apply Checks.bind (alloc_records hone _).checks (emits_alloc _)
      intro b hb _
      -- the allocated bit, as an element, is demanded equal to the word's element
      have hbit : (FieldVar.ofBool b).lc.eval asg = bitValue (decide (raw = 1)) := by
        rw [FieldVar.lc_ofBool]
        exact hb.readsAs
      apply Checks.bind (FieldVar.enforceEq_checks hone hbit hl) (FieldVar.emits_enforceEq_var _ _ _)
      intro _ _ _
      exact checks_pure hb
    · simp [bitValue_eq_ofWord_iff]

/-- **Soundness of a boolean word.** Satisfied, the constraints make the bound element a bit, the
one the result reads as. -/
theorem enforceBoolean_sound (hone : asg Var.one = 1) (raw : UInt64) {x : FieldVar}
    (hxc : x.isConst = false) :
    Sound asg (enforceBoolean raw x) fun b => ∃ β, b.VarReads asg β ∧ x.lc.eval asg = bitValue β := by
  cases x with
  | const c => cases hxc
  | var l v =>
    unfold enforceBoolean
    refine Sound.bind (alloc_varReads hone _) fun b hb => ?_
    obtain ⟨β, hβ⟩ := hb
    refine Sound.bind (FieldVar.enforceEq_sound hone _ l v) fun _ heq => sound_pure ⟨β, hβ, ?_⟩
    rw [FieldVar.eval_lc_var, ← heq, FieldVar.lc_ofBool]
    exact hβ.readsAs

end Boolean

/-! ### Bit budgets -/

section Budget

variable {asg : Assignment}

theorem emits_enforceBitBudget (raw : UInt64) {x : FieldVar} (hxc : x.isConst = false) (n : Nat) :
    Emits (enforceBitBudget raw x n) (n + 1)
      fun bits => List.Forall₂ (fun b β => ∃ w, b = pos w β) bits (wordBits raw n) := by
  cases x with
  | const c => cases hxc
  | var l v =>
    unfold enforceBitBudget
    refine Emits.cast (Emits.bind (emits_mapM_alloc _ _) fun bits hbits =>
      Emits.bind (FieldVar.emits_enforceEq_var _ l v) fun _ _ => emits_pure hbits) ?_
    simp

/-- **Checks of a bit budget.** The honest run fails at its last constraint exactly when the
number of the word's low bits is not the bound element, and its result records those bits. -/
theorem enforceBitBudget_checks (hone : asg Var.one = 1) (raw : UInt64) (n : Nat) {x : FieldVar}
    (hx : x.Honest asg) (hxc : x.isConst = false) :
    Checks asg (enforceBitBudget raw x n) [(decide ((bitsNumber (wordBits raw n) : Fr) = x.value), n)]
      fun bits => List.Forall₂ (Records asg) bits (wordBits raw n) := by
  cases x with
  | const c => cases hxc
  | var l v =>
    unfold enforceBitBudget
    apply Checks.congr
    · apply Checks.bind (mapM_alloc_records hone _ _).checks (emits_mapM_alloc _ _)
      intro bits hbits _
      -- the packed bits evaluate to the number of the recorded ones
      have hpack := eval_lc_ofBitsLE_of_forall₂ hone (hbits.imp fun _ _ h => h.readsAs)
      apply Checks.bind (FieldVar.enforceEq_checks hone hpack hx) (FieldVar.emits_enforceEq_var _ _ _)
      intro _ _ _
      exact checks_pure hbits
    · simp [wordBits]

/-- **Soundness of a bit budget.** Satisfied, the constraints make the bound element the number
of the bits the result reads as, `n` of them. -/
theorem enforceBitBudget_sound (hone : asg Var.one = 1) (raw : UInt64) {x : FieldVar}
    (hxc : x.isConst = false) (n : Nat) :
    Sound asg (enforceBitBudget raw x n) fun bits => ∃ βs, List.Forall₂ (VarReads asg) bits βs ∧
      βs.length = n ∧ x.lc.eval asg = (bitsNumber βs : Fr) := by
  cases x with
  | const c => cases hxc
  | var l v =>
    unfold enforceBitBudget
    refine Sound.bind (mapM_alloc_varReads hone _ _) fun bits hbits => ?_
    obtain ⟨βs, hβs, hlen⟩ := hbits
    refine Sound.bind (FieldVar.enforceEq_sound hone _ l v) fun _ heq =>
      sound_pure ⟨βs, hβs, by simpa using hlen, ?_⟩
    rw [FieldVar.eval_lc_var, ← heq, eval_lc_ofBitsLE_of_forall₂ hone (hβs.imp fun _ _ h => h.readsAs)]

end Budget

/-! ### Positions in lists of bits -/

/-- Related lists are related at every position, with related defaults. -/
theorem forall₂_getD {α β : Type} {R : α → β → Prop} {l₁ : List α} {l₂ : List β}
    (h : List.Forall₂ R l₁ l₂) {i : Nat} (hi : i < l₂.length) (d₁ : α) (d₂ : β) :
    R (l₁.getD i d₁) (l₂.getD i d₂) := by
  induction h generalizing i with
  | nil => simp at hi
  | cons hab _ ih =>
    cases i with
    | zero => simpa using hab
    | succ i => simpa using ih (by simpa using hi)

@[simp] theorem FieldVar.isConst_sub (x y : FieldVar) :
    (x.sub y).isConst = (x.isConst && y.isConst) := by
  cases x <;> cases y <;> rfl

/-! ### The age gate -/

instance grows_ageGate {ageRaw requiredRaw : UInt64} {age required : FieldVar} {ageCheck : BoolVar} :
    Grows (ageGate ageRaw requiredRaw age required ageCheck) := by
  unfold ageGate
  infer_instance

theorem ofWord_ageOffset : Fr.ofWord (1 <<< ageBits.toUInt64) = ((256 : Nat) : Fr) := rfl

/-- With both words below `2⁸`, the comparison word `age + 2⁸ - required` does not wrap: its
bits spell the comparison element, and its top bit says whether `required ≤ age`. -/
theorem ageDiff_wordBits {a r : UInt64} (ha : a < 256) (hr : r < 256) :
    (bitsNumber (wordBits (a + 1 <<< ageBits.toUInt64 - r) (ageBits + 1)) : Fr) =
        Fr.ofWord a + Fr.ofWord (1 <<< ageBits.toUInt64) - Fr.ofWord r ∧
      (wordBits (a + 1 <<< ageBits.toUInt64 - r) (ageBits + 1)).getD ageBits false =
        decide (r ≤ a) := by
  replace ha : a.toNat < 256 := by simpa [UInt64.lt_iff_toNat_lt] using ha
  replace hr : r.toNat < 256 := by simpa [UInt64.lt_iff_toNat_lt] using hr
  have htoNat : (a + 1 <<< ageBits.toUInt64 - r).toNat = a.toNat + 256 - r.toNat := by
    simp [UInt64.toNat_add, UInt64.toNat_sub, ageBits]
    omega
  have hnum : bitsNumber (wordBits (a + 1 <<< ageBits.toUInt64 - r) (ageBits + 1)) =
      a.toNat + 256 - r.toNat := by
    rw [bitsNumber_wordBits _ (by simp [ageBits]), htoNat]
    exact Nat.mod_eq_of_lt (by simp [ageBits]; omega)
  constructor
  · rw [hnum, ofWord_ageOffset, Fr.ofWord_eq_natCast, Fr.ofWord_eq_natCast, Nat.cast_sub (by omega),
      Nat.cast_add]
  · -- the top bit of the nine is set exactly when the number reaches `2⁸`
    have htop := two_pow_le_bitsNumber_iff (length_wordBits (a + 1 <<< ageBits.toUInt64 - r) (ageBits + 1))
    rw [hnum] at htop
    apply Bool.eq_iff_iff.2
    rw [← htop, decide_eq_true_iff, UInt64.le_iff_toNat_le]
    simp only [ageBits]
    omega

/-- A nine-bit number equal in the field to `A + 2⁸ - R`, for numbers `A` and `R` of eight
bits, reaches `2⁸` exactly when `R ≤ A`: nothing wraps modulo `r`. -/
theorem ageDiff_top_iff {A R D : Nat} (hA : A < 256) (hR : R < 256) (hD : D < 512)
    (h : (D : Fr) = (A : Fr) + ((256 : Nat) : Fr) - (R : Fr)) : 256 ≤ D ↔ R ≤ A := by
  have hsum : ((D + R : Nat) : Fr) = ((A + 256 : Nat) : Fr) := by
    push_cast
    linear_combination h
  have hlt : ∀ k, k < 1024 → k < Fr.modulus := fun k hk => lt_trans hk (by decide)
  rw [Fr.natCast_inj (hlt _ (by omega)) (hlt _ (by omega))] at hsum
  omega

section Age

variable {asg : Assignment}

theorem emits_ageGate (ageRaw requiredRaw : UInt64) {age required : FieldVar}
    (hagec : age.isConst = false) (hreqc : required.isConst = false) (w : Var) (c : Bool) :
    Emits (ageGate ageRaw requiredRaw age required (pos w c)) 30 fun _ => True := by
  have hdiffc : ((age.add (.const (Fr.ofWord (1 <<< ageBits.toUInt64)))).sub required).isConst =
      false := by simp [hagec]
  unfold ageGate
  -- nine constraints for each age, ten for the comparison, one for the flag, one demand
  refine Emits.cast ?_ (show 9 + (9 + (10 + (1 + 1))) = 30 from rfl)
  refine Emits.bind (emits_enforceBitBudget ageRaw hagec ageBits) fun _ _ => ?_
  refine Emits.bind (emits_enforceBitBudget requiredRaw hreqc ageBits) fun _ _ => ?_
  refine Emits.bind (emits_enforceBitBudget _ hdiffc (ageBits + 1)) fun diffBits hbits => ?_
  -- the comparison bit is a variable, so the flag's conjunction costs one constraint
  obtain ⟨w₈, hw₈⟩ := forall₂_getD hbits
    (show ageBits < (wordBits (ageRaw + 1 <<< ageBits.toUInt64 - requiredRaw) (ageBits + 1)).length by
      simp [ageBits]) (const false) false
  simp only [hw₈, BoolVar.not, pos_and_neg]
  refine Emits.bind (emits_connective _ _ _ _) fun r hr => ?_
  obtain ⟨wr, hr⟩ := hr
  subst hr
  exact emits_enforceEq _ _

/-- **Checks of the age gate.** The honest run first fails at the ninth constraint if the age
does not fit in 8 bits, else at the eighteenth if the required age does not, else at the
thirtieth if the age check is on and the age is below the required one. -/
theorem ageGate_checks (hone : asg Var.one = 1) (ageRaw requiredRaw : UInt64) {age required : FieldVar}
    (hage : age.Honest asg) (hagev : age.value = Fr.ofWord ageRaw) (hagec : age.isConst = false)
    (hreq : required.Honest asg) (hreqv : required.value = Fr.ofWord requiredRaw)
    (hreqc : required.isConst = false) {w : Var} {c : Bool} (hw : asg w = bitValue c) :
    Checks asg (ageGate ageRaw requiredRaw age required (pos w c))
      [(decide (ageRaw < 256), 8), (decide (requiredRaw < 256), 17),
        (decide (c = true → requiredRaw ≤ ageRaw), 29)] fun _ => True := by
  -- the comparison element: the age, plus `2⁸`, less the required age
  have hdiff := (hage.add (FieldVar.honest_const hone (Fr.ofWord (1 <<< ageBits.toUInt64)))).sub hreq
  have hdiffc : ((age.add (.const (Fr.ofWord (1 <<< ageBits.toUInt64)))).sub required).isConst =
      false := by simp [hagec]
  unfold ageGate
  apply Checks.congr
  · apply Checks.bind (enforceBitBudget_checks hone ageRaw ageBits hage hagec)
      (emits_enforceBitBudget ageRaw hagec ageBits)
    intro _ _ _
    apply Checks.bind (enforceBitBudget_checks hone requiredRaw ageBits hreq hreqc)
      (emits_enforceBitBudget requiredRaw hreqc ageBits)
    intro _ _ _
    apply Checks.bind (enforceBitBudget_checks hone _ (ageBits + 1) hdiff hdiffc)
      (emits_enforceBitBudget _ hdiffc (ageBits + 1))
    intro diffBits hbits _
    -- the flag and the negated comparison bit, conjoined and demanded false
    obtain ⟨w₈, hw₈, hv₈⟩ := forall₂_getD hbits
      (show ageBits < (wordBits (ageRaw + 1 <<< ageBits.toUInt64 - requiredRaw) (ageBits + 1)).length by
        simp [ageBits]) (const false) false
    simp only [hw₈, BoolVar.not, pos_and_neg]
    apply Checks.bind (connective_records fun r hr => (andNotVars_holds_iff hone hw hv₈).2 hr).checks
      (emits_connective _ _ _ _)
    intro r hr _
    exact enforceEq_checks hone hr.readsAs false
  · -- the comparison is exact once both words fit in 8 bits
    have hA := bitsNumber_wordBits_eq_ofWord_iff ageRaw (show ageBits ≤ 64 by decide)
    have hR := bitsNumber_wordBits_eq_ofWord_iff requiredRaw (show ageBits ≤ 64 by decide)
    simp only [FieldVar.value_sub, FieldVar.value_add, FieldVar.value_const, hagev, hreqv, hA, hR,
      List.cons_append, List.nil_append, shiftBy_cons, shiftBy_nil, firstFailing_cons]
    have hwordA : ageRaw < 256 ↔ ageRaw.toNat < 2 ^ ageBits := by
      simp [UInt64.lt_iff_toNat_lt, ageBits]
    have hwordR : requiredRaw < 256 ↔ requiredRaw.toNat < 2 ^ ageBits := by
      simp [UInt64.lt_iff_toNat_lt, ageBits]
    simp only [decide_eq_true_eq, hwordA, hwordR]
    by_cases ha : ageRaw.toNat < 2 ^ ageBits
    · by_cases hr : requiredRaw.toNat < 2 ^ ageBits
      · obtain ⟨hD, hβ⟩ := ageDiff_wordBits (hwordA.2 ha) (hwordR.2 hr)
        have hE : (c && !decide (requiredRaw ≤ ageRaw)) = false ↔
            (c = true → requiredRaw ≤ ageRaw) := by
          cases c <;> simp
        simp only [ha, hr, hD, hβ, hE, if_true]
        rfl
      · simp only [ha, hr, if_true, if_false]
        rfl
    · simp only [ha, if_false]
      rfl

/-- **Soundness of the age gate.** Satisfied, its constraints make the age and the required age
numbers of 8 bits, and, with the flag read as set, the age at least the required one. -/
theorem ageGate_sound (hone : asg Var.one = 1) (ageRaw requiredRaw : UInt64) {age required : FieldVar}
    (hagec : age.isConst = false) (hreqc : required.isConst = false) {ageCheck : BoolVar} {c : Bool}
    (hc : ageCheck.VarReads asg c) :
    Sound asg (ageGate ageRaw requiredRaw age required ageCheck) fun _ =>
      ∃ A R : Nat, A < 256 ∧ R < 256 ∧ age.lc.eval asg = A ∧ required.lc.eval asg = R ∧
        (c = true → R ≤ A) := by
  obtain ⟨w, v, rfl, hw⟩ := hc
  have hdiffc : ((age.add (.const (Fr.ofWord (1 <<< ageBits.toUInt64)))).sub required).isConst =
      false := by simp [hagec]
  unfold ageGate
  refine Sound.bind (enforceBitBudget_sound hone ageRaw hagec ageBits)
    fun _ h => ?_
  obtain ⟨βa, _, hlenA, hA⟩ := h
  refine Sound.bind (enforceBitBudget_sound hone requiredRaw hreqc ageBits)
    fun _ h => ?_
  obtain ⟨βr, _, hlenR, hR⟩ := h
  refine Sound.bind (enforceBitBudget_sound hone _ hdiffc (ageBits + 1))
    fun diffBits hdiffBits => ?_
  obtain ⟨βd, hβd, hlenD, hD⟩ := hdiffBits
  -- the comparison bit is a variable, read as the top bit of the comparison number
  obtain ⟨w₈, v₈, hw₈, hv₈⟩ := forall₂_getD hβd
    (show ageBits < βd.length by simp [hlenD, ageBits]) (const false) false
  simp only [hw₈, BoolVar.not, pos_and_neg]
  refine Sound.bind (connective_varReads fun r => andNotVars_holds_iff hone hw hv₈) fun r hr => ?_
  refine (enforceEq_sound hone r false).mono fun _ hfalse => ?_
  have hconj : (c && !βd.getD ageBits false) = false := hr.readsAs.unique hfalse
  -- the three numbers, of 8, 8 and 9 bits
  have hAlt : bitsNumber βa < 256 := by simpa [hlenA, ageBits] using bitsNumber_lt βa
  have hRlt : bitsNumber βr < 256 := by simpa [hlenR, ageBits] using bitsNumber_lt βr
  have hDlt : bitsNumber βd < 512 := by simpa [hlenD, ageBits] using bitsNumber_lt βd
  refine ⟨bitsNumber βa, bitsNumber βr, hAlt, hRlt, hA, hR, fun hset => ?_⟩
  have htop : 2 ^ ageBits ≤ bitsNumber βd :=
    (two_pow_le_bitsNumber_iff hlenD).2 (by simpa [hset] using hconj)
  have hDval : (bitsNumber βd : Fr) = (bitsNumber βa : Fr) + ((256 : Nat) : Fr) - (bitsNumber βr : Fr) := by
    rw [← hD, ← hA, ← hR, FieldVar.eval_lc_sub, FieldVar.eval_lc_add, FieldVar.eval_lc_const hone,
      ofWord_ageOffset]
  exact (ageDiff_top_iff hAlt hRlt hDlt hDval).1 htop

end Age

/-! ### The gender gate -/

instance grows_genderGate {genderRaw requiredRaw : UInt64} {gender required : FieldVar}
    {genderCheck : BoolVar} : Grows (genderGate genderRaw requiredRaw gender required genderCheck) := by
  unfold genderGate
  infer_instance

/-- A word of at most one is 0 or 1. -/
theorem word_eq_zero_or_one {a : UInt64} (h : a ≤ 1) : a = 0 ∨ a = 1 := by
  rw [UInt64.le_iff_toNat_le] at h
  rw [← UInt64.toNat_inj, ← UInt64.toNat_inj]
  simp only [UInt64.toNat_one, UInt64.toNat_zero] at h ⊢
  omega

/-- Of two words of at most one, the bits "is 1" differ exactly when the words do. -/
theorem mismatch_eq_false_iff {g r : UInt64} (hg : g ≤ 1) (hr : r ≤ 1) (c : Bool) :
    (c && (decide (g = 1) != decide (r = 1))) = false ↔ (c = true → g = r) := by
  rcases word_eq_zero_or_one hg with rfl | rfl <;> rcases word_eq_zero_or_one hr with rfl | rfl <;>
    cases c <;> decide

section Gender

variable {asg : Assignment}

theorem emits_genderGate (genderRaw requiredRaw : UInt64) {gender required : FieldVar}
    (hgc : gender.isConst = false) (hrc : required.isConst = false) (w : Var) (c : Bool) :
    Emits (genderGate genderRaw requiredRaw gender required (pos w c)) 7 fun _ => True := by
  unfold genderGate
  -- two for each bit, one for their mismatch, one for the flag, one demand
  refine Emits.cast ?_ (show 2 + (2 + (1 + (1 + 1))) = 7 from rfl)
  refine Emits.bind (emits_enforceBoolean genderRaw hgc) fun g hg => ?_
  obtain ⟨wg, hg⟩ := hg
  refine Emits.bind (emits_enforceBoolean requiredRaw hrc) fun r hr => ?_
  obtain ⟨wr, hr⟩ := hr
  subst hg hr
  simp only [BoolVar.isNeq, pos_xor_pos]
  refine Emits.bind (emits_connective _ _ _ _) fun m hm => ?_
  obtain ⟨wm, hm⟩ := hm
  subst hm
  simp only [pos_and_pos]
  refine Emits.bind (emits_connective _ _ _ _) fun a ha => ?_
  obtain ⟨wa, ha⟩ := ha
  subst ha
  exact emits_enforceEq _ _

/-- **Checks of the gender gate.** The honest run first fails at the second constraint if the
gender is not 0 or 1, else at the fourth if the required gender is not, else at the seventh if
the gender check is on and the two differ. -/
theorem genderGate_checks (hone : asg Var.one = 1) (genderRaw requiredRaw : UInt64)
    {gender required : FieldVar} (hg : gender.Honest asg) (hgv : gender.value = Fr.ofWord genderRaw)
    (hgc : gender.isConst = false) (hr : required.Honest asg)
    (hrv : required.value = Fr.ofWord requiredRaw) (hrc : required.isConst = false) {w : Var}
    {c : Bool} (hw : asg w = bitValue c) :
    Checks asg (genderGate genderRaw requiredRaw gender required (pos w c))
      [(decide (genderRaw ≤ 1), 1), (decide (requiredRaw ≤ 1), 3),
        (decide (c = true → genderRaw = requiredRaw), 6)] fun _ => True := by
  unfold genderGate
  apply Checks.congr
  · apply Checks.bind (enforceBoolean_checks hone genderRaw hg hgv hgc)
      (emits_enforceBoolean genderRaw hgc)
    rintro _ ⟨wg, rfl, hwg⟩ _
    apply Checks.bind (enforceBoolean_checks hone requiredRaw hr hrv hrc)
      (emits_enforceBoolean requiredRaw hrc)
    rintro _ ⟨wr, rfl, hwr⟩ _
    -- the mismatch of the two bits, conjoined with the flag and demanded false
    simp only [BoolVar.isNeq, pos_xor_pos]
    apply Checks.bind (connective_records fun m hm => (xorVars_holds_iff hwg hwr).2 hm).checks
      (emits_connective _ _ _ _)
    rintro _ ⟨wm, rfl, hwm⟩ _
    simp only [pos_and_pos]
    apply Checks.bind (connective_records fun a ha => (andVars_holds_iff hw hwm).2 ha).checks
      (emits_connective _ _ _ _)
    intro a ha _
    exact enforceEq_checks hone ha.readsAs false
  · simp only [List.cons_append, List.nil_append, shiftBy_cons, shiftBy_nil, firstFailing_cons,
      decide_eq_true_eq]
    by_cases hgb : genderRaw ≤ 1
    · by_cases hrb : requiredRaw ≤ 1
      · simp only [hgb, hrb, mismatch_eq_false_iff hgb hrb, if_true]
      · simp only [hgb, hrb, if_true, if_false]
    · simp only [hgb, if_false]

/-- **Soundness of the gender gate.** Satisfied, its constraints make the gender and the required
gender bits, and, with the flag read as set, equal. -/
theorem genderGate_sound (hone : asg Var.one = 1) (genderRaw requiredRaw : UInt64)
    {gender required : FieldVar} (hgc : gender.isConst = false) (hrc : required.isConst = false)
    {genderCheck : BoolVar} {c : Bool} (hc : genderCheck.VarReads asg c) :
    Sound asg (genderGate genderRaw requiredRaw gender required genderCheck) fun _ =>
      ∃ γ ρ : Bool, gender.lc.eval asg = bitValue γ ∧ required.lc.eval asg = bitValue ρ ∧
        (c = true → γ = ρ) := by
  obtain ⟨w, v, rfl, hw⟩ := hc
  unfold genderGate
  refine Sound.bind (enforceBoolean_sound hone genderRaw hgc) fun g hg => ?_
  obtain ⟨γ, hγ, hgeval⟩ := hg
  refine Sound.bind (enforceBoolean_sound hone requiredRaw hrc) fun r hr => ?_
  obtain ⟨ρ, hρ, hreval⟩ := hr
  obtain ⟨wg, vg, rfl, hwg⟩ := hγ
  obtain ⟨wr, vr, rfl, hwr⟩ := hρ
  simp only [BoolVar.isNeq, pos_xor_pos]
  refine Sound.bind (connective_varReads fun m => xorVars_holds_iff hwg hwr) fun m hm => ?_
  obtain ⟨wm, vm, rfl, hwm⟩ := hm
  simp only [pos_and_pos]
  refine Sound.bind (connective_varReads fun a => andVars_holds_iff hw hwm) fun a ha => ?_
  refine (enforceEq_sound hone a false).mono fun _ hfalse => ⟨γ, ρ, hgeval, hreval, fun hset => ?_⟩
  -- the conjunction reads as false, so with the flag set the bits do not differ
  have hconj : (c && (γ != ρ)) = false := ha.readsAs.unique hfalse
  simpa [hset] using hconj

end Gender

/-! ### Tests of equality and of zero -/

@[simp] theorem BoolVar.not_not (b : BoolVar) : b.not.not = b := by
  cases b <;> simp [BoolVar.not]

theorem BoolVar.not_eq_pos_iff {b : BoolVar} {w : Var} {β : Bool} : b.not = pos w β ↔ b = neg w β := by
  cases b <;> simp [BoolVar.not]

section Tests

variable {asg : Assignment}

theorem emits_isNonzero (δ : LinComb) (d : Fr) :
    Emits (FieldVar.isNonzero δ d) 3 fun b => ∃ w, b = pos w (decide (d ≠ 0)) := by
  intro s
  rw [FieldVar.run_isNonzero]
  exact ⟨by simp, _, rfl⟩

/-- The nonzero test records whether the difference is nonzero. -/
theorem isNonzero_records (hone : asg Var.one = 1) {δ : LinComb} {d : Fr} (hδ : δ.eval asg = d) :
    Complete asg (FieldVar.isNonzero δ d) (·.Records asg (decide (d ≠ 0))) := by
  intro s hagree
  obtain ⟨hb, hr⟩ := FieldVar.isNonzero_complete hone hδ hagree
  refine ⟨hb, ?_⟩
  rw [FieldVar.run_isNonzero] at hr ⊢
  exact ⟨_, rfl, readsAs_pos.1 hr⟩

theorem isNonzero_varReads (hone : asg Var.one = 1) (δ : LinComb) (d : Fr) :
    Sound asg (FieldVar.isNonzero δ d) (·.VarReads asg (decide (δ.eval asg ≠ 0))) := by
  intro s h
  have hr := FieldVar.isNonzero_sound hone h
  rw [FieldVar.run_isNonzero] at hr ⊢
  exact ⟨_, _, rfl, readsAs_pos.1 hr⟩

theorem emits_isEq_var (l₁ l₂ : LinComb) (v₁ v₂ : Fr) :
    Emits ((FieldVar.var l₁ v₁).isEq (.var l₂ v₂)) 3 fun b => ∃ w β, b = neg w β := by
  intro s
  rw [FieldVar.run_isEq_var_var]
  obtain ⟨hsize, w, hw⟩ := emits_isNonzero (l₁ - l₂) (v₁ - v₂) s
  exact ⟨hsize, w, _, by rw [hw]; rfl⟩

/-- Two variables: the test's negation records whether their values differ. -/
theorem isEq_var_records (hone : asg Var.one = 1) {l₁ l₂ : LinComb} {v₁ v₂ : Fr}
    (h₁ : l₁.eval asg = v₁) (h₂ : l₂.eval asg = v₂) :
    Complete asg ((FieldVar.var l₁ v₁).isEq (.var l₂ v₂)) (·.not.Records asg (decide (v₁ ≠ v₂))) := by
  intro s hagree
  rw [FieldVar.run_isEq_var_var] at hagree ⊢
  have hδ : (l₁ - l₂).eval asg = v₁ - v₂ := by rw [eval_sub, h₁, h₂]
  obtain ⟨hb, hr⟩ := isNonzero_records hone hδ s hagree
  refine ⟨hb, ?_⟩
  dsimp only
  rw [BoolVar.not_not, decide_eq_decide.2 sub_ne_zero.symm]
  exact hr

theorem isEq_var_varReads (hone : asg Var.one = 1) (l₁ l₂ : LinComb) (v₁ v₂ : Fr) :
    Sound asg ((FieldVar.var l₁ v₁).isEq (.var l₂ v₂))
      (·.not.VarReads asg (decide (l₁.eval asg ≠ l₂.eval asg))) := by
  intro s h
  rw [FieldVar.run_isEq_var_var] at h ⊢
  have hr := isNonzero_varReads hone (l₁ - l₂) (v₁ - v₂) s h
  rw [BoolVar.not_not]
  simpa only [eval_sub, ne_eq, sub_eq_zero] using hr

theorem emits_isNeq_const (l : LinComb) (v c : Fr) :
    Emits ((FieldVar.var l v).isNeq (.const c)) 3 fun b => ∃ w β, b = pos w β := by
  intro s
  simp only [FieldVar.isNeq, run_bind, FieldVar.run_isEq_var_const, run_pure]
  obtain ⟨hsize, w, hw⟩ := emits_isNonzero (LinComb.const c - l) (c - v) s
  exact ⟨hsize, w, _, by rw [hw]; rfl⟩

/-- A variable and a constant: the test records whether they differ. -/
theorem isNeq_const_records (hone : asg Var.one = 1) {l : LinComb} {v : Fr} (hl : l.eval asg = v)
    (c : Fr) : Complete asg ((FieldVar.var l v).isNeq (.const c)) (·.Records asg (decide (v ≠ c))) := by
  intro s hagree
  simp only [FieldVar.isNeq, run_bind, FieldVar.run_isEq_var_const, run_pure] at hagree ⊢
  have hδ : (LinComb.const c - l).eval asg = c - v := by rw [eval_sub, eval_const, hone, mul_one, hl]
  obtain ⟨hb, hr⟩ := isNonzero_records hone hδ s hagree
  refine ⟨hb, ?_⟩
  rw [BoolVar.not_not, decide_eq_decide.2 (sub_ne_zero.trans ne_comm).symm]
  exact hr

theorem isNeq_const_varReads (hone : asg Var.one = 1) (l : LinComb) (v c : Fr) :
    Sound asg ((FieldVar.var l v).isNeq (.const c)) (·.VarReads asg (decide (l.eval asg ≠ c))) := by
  intro s h
  simp only [FieldVar.isNeq, run_bind, FieldVar.run_isEq_var_const, run_pure] at h ⊢
  have hr := isNonzero_varReads hone (LinComb.const c - l) (c - v) s h
  rw [BoolVar.not_not]
  have hiff : c - l.eval asg ≠ 0 ↔ l.eval asg ≠ c := sub_ne_zero.trans ne_comm
  simpa only [eval_sub, eval_const, hone, mul_one, decide_eq_decide.2 hiff] using hr

end Tests

/-! ### The nationality gate -/

instance grows_anyOf {hits : List BoolVar} : Grows (anyOf hits) :=
  ⟨fun s => by unfold anyOf; split <;> exact Grows.le s⟩

instance grows_matchVar {nationality country : FieldVar} : Grows (matchVar nationality country) := by
  unfold matchVar
  infer_instance

instance grows_admitsVar {nationality : FieldVar} {countries : List FieldVar} :
    Grows (admitsVar nationality countries) := by
  unfold admitsVar
  infer_instance

instance grows_nationalityGate {nationality : FieldVar} {countries : List FieldVar}
    {nationalityCheck : BoolVar} : Grows (nationalityGate nationality countries nationalityCheck) := by
  unfold nationalityGate
  infer_instance

section Nationality

variable {asg : Assignment}

/-- The recorded values of bits that record `βs` are `βs`. -/
theorem map_value_of_forall₂ {bits : List BoolVar} {βs : List Bool}
    (h : List.Forall₂ (Records asg) bits βs) : bits.map BoolVar.value = βs := by
  induction h with
  | nil => rfl
  | cons hb _ ih => rw [List.map_cons, ih, hb.value_eq]

/-- Some bit of a list reads as true exactly when one of the values it reads as is true. -/
theorem exists_readsAs_true_iff {bits : List BoolVar} {βs : List Bool}
    (h : List.Forall₂ (fun b β => b.ReadsAs asg β) bits βs) :
    (∃ x ∈ bits, x.ReadsAs asg true) ↔ βs.any id = true := by
  induction h with
  | nil => simp
  | @cons b β bits βs hb _ ih =>
    have hhead : b.ReadsAs asg true ↔ β = true := ⟨fun ht => hb.unique ht, fun hβ => hβ ▸ hb⟩
    simp only [List.mem_cons, exists_eq_or_imp, List.any_cons, Bool.or_eq_true, id, ih, hhead]

theorem emits_anyOf {hits : List BoolVar} (hpos : ∀ h ∈ hits, ∃ w β, h = pos w β)
    (hne : hits ≠ []) : Emits (anyOf hits) (hits.length - 1) fun b => ∃ w β, b = pos w β := by
  obtain ⟨h₀, rest, rfl⟩ := List.exists_cons_of_ne_nil hne
  intro s
  rw [anyOf_cons]
  obtain ⟨-, hsize, hshape⟩ := foldlM_or_shape rest h₀ s (hpos h₀ List.mem_cons_self)
    fun x hx => hpos x (List.mem_cons_of_mem _ hx)
  exact ⟨by simpa using hsize, hshape⟩

/-- Every member of a related list is related to something. -/
theorem exists_of_forall₂ {α β : Type} {R : α → β → Prop} {l₁ : List α} {l₂ : List β}
    (h : List.Forall₂ R l₁ l₂) {a : α} (ha : a ∈ l₁) : ∃ b, R a b := by
  induction h with
  | nil => simp at ha
  | cons hab _ ih =>
    rcases List.mem_cons.1 ha with rfl | ha
    · exact ⟨_, hab⟩
    · exact ih ha

/-- The disjunction of bits that record `βs` records whether one of them is true. -/
theorem anyOf_records (hone : asg Var.one = 1) {hits : List BoolVar} {βs : List Bool}
    (h : List.Forall₂ (Records asg) hits βs) (hne : hits ≠ []) :
    Complete asg (anyOf hits) (·.Records asg (βs.any id)) := by
  cases h with
  | nil => exact absurd rfl hne
  | @cons h₀ β₀ rest βrest hb hrest =>
    intro s hagree
    rw [anyOf_cons] at hagree ⊢
    -- the fold runs over variables that record their bits
    have hpos₀ : ∃ w c, h₀ = pos w c := by
      obtain ⟨w, hw, -⟩ := hb
      exact ⟨w, β₀, hw⟩
    have hpos : ∀ x ∈ rest, ∃ w c, x = pos w c := by
      intro x hx
      obtain ⟨β, w, hw, -⟩ := exists_of_forall₂ hrest hx
      exact ⟨w, β, hw⟩
    have hhon : ∀ x ∈ rest, x.Honest asg := by
      intro x hx
      obtain ⟨_, hβ⟩ := exists_of_forall₂ hrest hx
      exact Records.honest hβ
    obtain ⟨hb', hres, hval⟩ := foldlM_or_complete hone rest h₀ s hpos₀ hpos (Records.honest hb) hhon hagree
    obtain ⟨-, -, w, c, hwc⟩ := foldlM_or_shape rest h₀ s hpos₀ hpos
    have hc : c = (β₀ :: βrest).any id := by
      rw [hwc, hb.value_eq] at hval
      rw [show c = (pos w c).value from rfl, hval, List.any_cons, ← map_value_of_forall₂ hrest,
        List.any_map]
      rfl
    rw [hwc] at hres ⊢
    exact ⟨hb', w, by rw [hc], by rw [← hc]; exact readsAs_pos.1 hres⟩

/-- The disjunction of variables that read as `βs` reads as whether one of them is true. -/
theorem anyOf_varReads (hone : asg Var.one = 1) {hits : List BoolVar} {βs : List Bool}
    (h : List.Forall₂ (VarReads asg) hits βs) (hne : hits ≠ []) :
    Sound asg (anyOf hits) (·.VarReads asg (βs.any id)) := by
  cases h with
  | nil => exact absurd rfl hne
  | @cons h₀ β₀ rest βrest hb hrest =>
    intro s hsat
    rw [anyOf_cons] at hsat ⊢
    have hpos₀ : ∃ w c, h₀ = pos w c := by
      obtain ⟨w, v, hw, -⟩ := hb
      exact ⟨w, v, hw⟩
    have hpos : ∀ x ∈ rest, ∃ w c, x = pos w c := by
      intro x hx
      obtain ⟨-, w, v, hw, -⟩ := exists_of_forall₂ hrest hx
      exact ⟨w, v, hw⟩
    have hreads : ∀ x ∈ rest, ∃ γ, x.ReadsAs asg γ := by
      intro x hx
      obtain ⟨β, hβ⟩ := exists_of_forall₂ hrest hx
      exact ⟨β, hβ.readsAs⟩
    obtain ⟨γ, hγ, hiff⟩ := foldlM_or_sound hone rest h₀ s β₀ hpos₀ hpos hb.readsAs hreads hsat
    obtain ⟨-, -, w, c, hwc⟩ := foldlM_or_shape rest h₀ s hpos₀ hpos
    -- the fold reads as true exactly when one of the bits does
    have hγ' : γ = (β₀ :: βrest).any id := by
      rw [exists_readsAs_true_iff (hrest.imp fun _ _ h => h.readsAs)] at hiff
      apply Bool.eq_iff_iff.2
      simpa [List.any_cons] using hiff
    rw [hwc] at hγ ⊢
    exact ⟨w, c, rfl, by rw [← hγ']; exact readsAs_pos.1 hγ⟩

theorem emits_matchVar {nationality country : FieldVar} (hnc : nationality.isConst = false)
    (hkc : country.isConst = false) :
    Emits (matchVar nationality country) 7 fun b => ∃ w β, b = pos w β := by
  cases nationality with
  | const _ => cases hnc
  | var l₁ v₁ =>
    cases country with
    | const _ => cases hkc
    | var l₂ v₂ =>
      unfold matchVar
      -- three for each test, one for the conjunction
      refine Emits.cast ?_ (show 3 + (3 + 1) = 7 from rfl)
      refine Emits.bind (emits_isEq_var l₁ l₂ v₁ v₂) fun same hsame => ?_
      obtain ⟨w₁, β₁, h₁⟩ := hsame
      refine Emits.bind (emits_isNeq_const l₂ v₂ 0) fun nz hnz => ?_
      obtain ⟨w₂, β₂, h₂⟩ := hnz
      subst h₁ h₂
      simp only [neg_and_pos]
      refine (emits_connective _ _ _ _).mono fun r hr => ?_
      obtain ⟨w, hw⟩ := hr
      exact ⟨w, _, hw⟩

/-- A match records whether the nationality equals the country and the country is not zero. -/
theorem matchVar_records (hone : asg Var.one = 1) {nationality country : FieldVar}
    (hn : nationality.Honest asg) (hnc : nationality.isConst = false) (hk : country.Honest asg)
    (hkc : country.isConst = false) :
    Complete asg (matchVar nationality country)
      (·.Records asg (decide (nationality.value = country.value ∧ country.value ≠ 0))) := by
  cases nationality with
  | const _ => cases hnc
  | var l₁ v₁ =>
    cases country with
    | const _ => cases hkc
    | var l₂ v₂ =>
      have h₁ : l₁.eval asg = v₁ := hn
      have h₂ : l₂.eval asg = v₂ := hk
      unfold matchVar
      refine Complete.bind (isEq_var_records hone h₁ h₂) fun same hsame => ?_
      refine Complete.bind (isNeq_const_records hone h₂ 0) fun nz hnz => ?_
      obtain ⟨w₁, hw₁, hv₁⟩ := hsame
      obtain ⟨w₂, rfl, hv₂⟩ := hnz
      rw [BoolVar.not_eq_pos_iff] at hw₁
      subst hw₁
      simp only [neg_and_pos]
      -- "nonzero and not different" is the match
      have hval : (decide (v₂ ≠ 0) && !decide (v₁ ≠ v₂)) = decide (v₁ = v₂ ∧ v₂ ≠ 0) := by
        by_cases h : v₁ = v₂ <;> simp [h]
      refine (connective_records fun r hr => (andNotVars_holds_iff hone hv₂ hv₁).2 hr).mono
        fun r hr => ?_
      have h : r.Records asg (decide (v₁ = v₂ ∧ v₂ ≠ 0)) := hval ▸ hr
      exact h

/-- A match reads as whether the nationality's value equals the country's and is not zero. -/
theorem matchVar_varReads (hone : asg Var.one = 1) {nationality country : FieldVar}
    (hnc : nationality.isConst = false) (hkc : country.isConst = false) :
    Sound asg (matchVar nationality country) (·.VarReads asg
      (decide (nationality.lc.eval asg = country.lc.eval asg ∧ country.lc.eval asg ≠ 0))) := by
  cases nationality with
  | const _ => cases hnc
  | var l₁ v₁ =>
    cases country with
    | const _ => cases hkc
    | var l₂ v₂ =>
      unfold matchVar
      refine Sound.bind (isEq_var_varReads hone l₁ l₂ v₁ v₂) fun same hsame => ?_
      refine Sound.bind (isNeq_const_varReads hone l₂ v₂ 0) fun nz hnz => ?_
      obtain ⟨w₁, u₁, hw₁, hv₁⟩ := hsame
      obtain ⟨w₂, u₂, rfl, hv₂⟩ := hnz
      rw [BoolVar.not_eq_pos_iff] at hw₁
      subst hw₁
      simp only [neg_and_pos]
      have hval : (decide (l₂.eval asg ≠ 0) && !decide (l₁.eval asg ≠ l₂.eval asg)) =
          decide (l₁.eval asg = l₂.eval asg ∧ l₂.eval asg ≠ 0) := by
        by_cases h : l₁.eval asg = l₂.eval asg <;> simp [h]
      refine (connective_varReads fun r => andNotVars_holds_iff hone hv₂ hv₁).mono fun r hr => ?_
      have h : r.VarReads asg (decide (l₁.eval asg = l₂.eval asg ∧ l₂.eval asg ≠ 0)) := hval ▸ hr
      exact h

theorem emits_mapM_matchVar {nationality : FieldVar} (hnc : nationality.isConst = false)
    (countries : List FieldVar) (hks : ∀ k ∈ countries, k.isConst = false) :
    Emits (countries.mapM (matchVar nationality)) (7 * countries.length)
      fun hits => hits.length = countries.length ∧ ∀ h ∈ hits, ∃ w β, h = pos w β := by
  refine (Emits.mapM fun k hk => emits_matchVar hnc (hks k hk)).mono fun hits h =>
    ⟨h.length_eq, fun x hx => ?_⟩
  obtain ⟨_, hpos⟩ := exists_of_forall₂ h hx
  exact hpos

theorem mapM_matchVar_records (hone : asg Var.one = 1) {nationality : FieldVar}
    (hn : nationality.Honest asg) (hnc : nationality.isConst = false) (countries : List FieldVar)
    (hks : ∀ k ∈ countries, k.Honest asg ∧ k.isConst = false) :
    Complete asg (countries.mapM (matchVar nationality)) fun hits => List.Forall₂ (Records asg) hits
      (countries.map fun k => decide (nationality.value = k.value ∧ k.value ≠ 0)) := by
  refine (Complete.mapM fun k hk => matchVar_records hone hn hnc (hks k hk).1 (hks k hk).2).mono
    fun hits h => ?_
  exact List.forall₂_map_right_iff.2 h

theorem mapM_matchVar_varReads (hone : asg Var.one = 1) {nationality : FieldVar}
    (hnc : nationality.isConst = false) (countries : List FieldVar)
    (hks : ∀ k ∈ countries, k.isConst = false) :
    Sound asg (countries.mapM (matchVar nationality)) fun hits => List.Forall₂ (VarReads asg) hits
      (countries.map fun k =>
        decide (nationality.lc.eval asg = k.lc.eval asg ∧ k.lc.eval asg ≠ 0)) := by
  refine (Sound.mapM fun k hk => matchVar_varReads hone hnc (hks k hk)).mono fun hits h => ?_
  exact List.forall₂_map_right_iff.2 h

theorem emits_admitsVar {nationality : FieldVar} (hnc : nationality.isConst = false)
    {countries : List FieldVar} (hks : ∀ k ∈ countries, k.isConst = false) (hne : countries ≠ []) :
    Emits (admitsVar nationality countries) (8 * countries.length - 1)
      fun b => ∃ w β, b = pos w β := by
  have hlen : 0 < countries.length := List.length_pos_iff.2 hne
  unfold admitsVar
  -- seven for each match, one for each disjunction
  refine Emits.cast ?_
    (show 7 * countries.length + (countries.length - 1) = 8 * countries.length - 1 by omega)
  refine Emits.bind (emits_mapM_matchVar hnc countries hks) fun hits hhits => ?_
  obtain ⟨hlen', hpos⟩ := hhits
  have hne' : hits ≠ [] := by
    rintro rfl
    simp only [List.length_nil] at hlen'
    omega
  rw [← hlen']
  exact emits_anyOf hpos hne'

/-- Whether the nationality is among the nonzero countries, as the honest run records it. -/
theorem admitsVar_records (hone : asg Var.one = 1) {nationality : FieldVar}
    (hn : nationality.Honest asg) (hnc : nationality.isConst = false) {countries : List FieldVar}
    (hks : ∀ k ∈ countries, k.Honest asg ∧ k.isConst = false) (hne : countries ≠ []) :
    Complete asg (admitsVar nationality countries) (·.Records asg
      (countries.any fun k => decide (nationality.value = k.value ∧ k.value ≠ 0))) := by
  unfold admitsVar
  refine Complete.bind (mapM_matchVar_records hone hn hnc countries hks) fun hits hhits => ?_
  have hne' : hits ≠ [] := by
    rw [← List.length_pos_iff, hhits.length_eq, List.length_map]
    exact List.length_pos_iff.2 hne
  have h := anyOf_records hone hhits hne'
  rwa [List.any_map] at h

/-- Whether the nationality is among the nonzero countries, as the constraints force it. -/
theorem admitsVar_varReads (hone : asg Var.one = 1) {nationality : FieldVar}
    (hnc : nationality.isConst = false) {countries : List FieldVar}
    (hks : ∀ k ∈ countries, k.isConst = false) (hne : countries ≠ []) :
    Sound asg (admitsVar nationality countries) (·.VarReads asg (countries.any fun k =>
      decide (nationality.lc.eval asg = k.lc.eval asg ∧ k.lc.eval asg ≠ 0))) := by
  unfold admitsVar
  refine Sound.bind (mapM_matchVar_varReads hone hnc countries hks) fun hits hhits => ?_
  have hne' : hits ≠ [] := by
    rw [← List.length_pos_iff, hhits.length_eq, List.length_map]
    exact List.length_pos_iff.2 hne
  have h := anyOf_varReads hone hhits hne'
  rwa [List.any_map] at h

theorem emits_nationalityGate {nationality : FieldVar} (hnc : nationality.isConst = false)
    {countries : List FieldVar} (hks : ∀ k ∈ countries, k.isConst = false) (hne : countries ≠ [])
    (w : Var) (c : Bool) :
    Emits (nationalityGate nationality countries (pos w c)) (8 * countries.length + 1)
      fun _ => True := by
  have hlen : 0 < countries.length := List.length_pos_iff.2 hne
  unfold nationalityGate
  refine Emits.cast ?_
    (show 8 * countries.length - 1 + (1 + 1) = 8 * countries.length + 1 by omega)
  refine Emits.bind (emits_admitsVar hnc hks hne) fun adm hadm => ?_
  obtain ⟨wa, α, ha⟩ := hadm
  subst ha
  simp only [BoolVar.not, pos_and_neg]
  refine Emits.bind (emits_connective _ _ _ _) fun r hr => ?_
  obtain ⟨wr, hr⟩ := hr
  subst hr
  exact emits_enforceEq _ _

/-- **Checks of the nationality gate.** The honest run fails at its last constraint exactly when
the nationality check is on and no nonzero country equals the nationality. -/
theorem nationalityGate_checks (hone : asg Var.one = 1) {nationality : FieldVar}
    (hn : nationality.Honest asg) (hnc : nationality.isConst = false) {countries : List FieldVar}
    (hks : ∀ k ∈ countries, k.Honest asg ∧ k.isConst = false) (hne : countries ≠ []) {w : Var}
    {c : Bool} (hw : asg w = bitValue c) :
    Checks asg (nationalityGate nationality countries (pos w c))
      [(decide (c = true → ∃ k ∈ countries, k.value ≠ 0 ∧ k.value = nationality.value),
        8 * countries.length)] fun _ => True := by
  unfold nationalityGate
  apply Checks.congr
  · apply Checks.bind (admitsVar_records hone hn hnc hks hne).checks
      (emits_admitsVar hnc (fun k hk => (hks k hk).2) hne)
    rintro _ ⟨wa, rfl, hwa⟩ _
    simp only [BoolVar.not, pos_and_neg]
    apply Checks.bind (connective_records fun r hr => (andNotVars_holds_iff hone hw hwa).2 hr).checks
      (emits_connective _ _ _ _)
    intro r hr _
    exact enforceEq_checks hone hr.readsAs false
  · have hlen : 0 < countries.length := List.length_pos_iff.2 hne
    have hoff : 8 * countries.length - 1 + (1 + 0) = 8 * countries.length := by omega
    -- the flag, conjoined with "not admitted", is false exactly when a nonzero country matches
    have hadm : (c && !countries.any fun k => decide (nationality.value = k.value ∧ k.value ≠ 0)) =
        false ↔ (c = true → ∃ k ∈ countries, k.value ≠ 0 ∧ k.value = nationality.value) := by
      have hex : (∃ k ∈ countries, nationality.value = k.value ∧ k.value ≠ 0) ↔
          ∃ k ∈ countries, k.value ≠ 0 ∧ k.value = nationality.value := by
        simp only [and_comm, eq_comm]
      cases c <;> simp [List.any_eq_true, hex]
    simp only [List.nil_append, shiftBy_cons, shiftBy_nil, firstFailing_cons, hoff, decide_eq_true_eq,
      hadm]

/-- **Soundness of the nationality gate.** Satisfied, its constraints leave, with the flag read as
set, a country whose value is not zero and equals the nationality's. -/
theorem nationalityGate_sound (hone : asg Var.one = 1) {nationality : FieldVar}
    (hnc : nationality.isConst = false) {countries : List FieldVar}
    (hks : ∀ k ∈ countries, k.isConst = false) (hne : countries ≠ []) {nationalityCheck : BoolVar}
    {c : Bool} (hc : nationalityCheck.VarReads asg c) :
    Sound asg (nationalityGate nationality countries nationalityCheck) fun _ =>
      c = true → ∃ k ∈ countries, k.lc.eval asg ≠ 0 ∧ k.lc.eval asg = nationality.lc.eval asg := by
  obtain ⟨w, v, rfl, hw⟩ := hc
  unfold nationalityGate
  refine Sound.bind (admitsVar_varReads hone hnc hks hne) fun adm hadm => ?_
  obtain ⟨wa, va, rfl, hwa⟩ := hadm
  simp only [BoolVar.not, pos_and_neg]
  refine Sound.bind (connective_varReads fun r => andNotVars_holds_iff hone hw hwa) fun r hr => ?_
  refine (enforceEq_sound hone r false).mono fun _ hfalse hset => ?_
  -- the conjunction reads as false, so with the flag set some match reads as true
  have hconj := hr.readsAs.unique hfalse
  simp only [hset, Bool.true_and, Bool.not_eq_false', List.any_eq_true, decide_eq_true_eq] at hconj
  obtain ⟨k, hk, heq, hnz⟩ := hconj
  exact ⟨k, hk, hnz, heq.symm⟩

end Nationality

/-! ### The commitment -/

section Commitment

variable {asg : Assignment}

instance grows_leafVar {tag : UInt64} {value salt : FieldVar} : Grows (leafVar tag value salt) := by
  unfold leafVar
  infer_instance

instance grows_commitmentVar {age gender nationality saltAge saltGender saltNationality : FieldVar} :
    Grows (commitmentVar age gender nationality saltAge saltGender saltNationality) := by
  unfold commitmentVar
  infer_instance

/-- On honest inputs the in-circuit hash is honest, and its value is the native hash of the
inputs' values. -/
theorem hashVar_value (hone : asg Var.one = 1) (p : Poseidon.Params) {xs : List FieldVar}
    (hxs : ∀ x ∈ xs, x.Honest asg) :
    Complete asg (hashVar p xs) fun r =>
      r.Honest asg ∧ r.value = Poseidon.hashWith p (xs.map FieldVar.value) := by
  intro s hagree
  obtain ⟨hb, hr⟩ := hashVar_complete hone p hxs s hagree
  -- the result evaluates to the hash of what the inputs evaluate to, and those are their values
  have heval := hashVar_sound hone p xs s hb
  rw [List.map_congr_left hxs] at heval
  exact ⟨hb, hr, hr.symm.trans heval⟩

theorem leafVar_value (hone : asg Var.one = 1) (tag : UInt64) {value salt : FieldVar}
    (hv : value.Honest asg) (hs : salt.Honest asg) :
    Complete asg (leafVar tag value salt) fun r =>
      r.Honest asg ∧ r.value = Poseidon.hash [Fr.ofWord tag, value.value, salt.value] := by
  unfold leafVar
  apply hashVar_value hone
  intro x hx
  rcases List.mem_cons.1 hx with rfl | hx
  · exact FieldVar.honest_const hone _
  rcases List.mem_cons.1 hx with rfl | hx
  · exact hv
  rw [List.mem_singleton.1 hx]
  exact hs

theorem leafVar_sound (hone : asg Var.one = 1) (tag : UInt64) (value salt : FieldVar) :
    Sound asg (leafVar tag value salt) fun r =>
      r.lc.eval asg = Poseidon.hash [Fr.ofWord tag, value.lc.eval asg, salt.lc.eval asg] := by
  unfold leafVar
  refine (hashVar_sound hone _ _).mono fun r hr => ?_
  rw [hr, List.map_cons, FieldVar.eval_lc_const hone]
  rfl

/-- A leaf with a variable value costs 480 constraints. -/
theorem emits_leafVar (tag : UInt64) {value : FieldVar} (hv : value.isConst = false)
    (salt : FieldVar) : Emits (leafVar tag value salt) 480 (·.isConst = false) :=
  emits_hashVar_leaf _ hv salt

/-- The commitment of variable attributes costs 1923 constraints. -/
theorem emits_commitmentVar {age gender nationality : FieldVar} (ha : age.isConst = false)
    (hg : gender.isConst = false) (hn : nationality.isConst = false)
    (saltAge saltGender saltNationality : FieldVar) :
    Emits (commitmentVar age gender nationality saltAge saltGender saltNationality) 1923
      (·.isConst = false) := by
  unfold commitmentVar
  -- three leaves, then the node over them
  refine Emits.cast ?_ (show 480 + (480 + (480 + 483)) = 1923 from rfl)
  refine Emits.bind (emits_leafVar 1 ha saltAge) fun l₁ h₁ => ?_
  refine Emits.bind (emits_leafVar 2 hg saltGender) fun l₂ h₂ => ?_
  refine Emits.bind (emits_leafVar 3 hn saltNationality) fun l₃ _ => ?_
  exact emits_hashVar_node h₁ h₂ l₃

/-- **The commitment is complete.** On honest inputs its constraints hold, and its result is
honest with the native commitment of the inputs' values. -/
theorem commitmentVar_value (hone : asg Var.one = 1)
    {age gender nationality saltAge saltGender saltNationality : FieldVar}
    (ha : age.Honest asg) (hg : gender.Honest asg) (hn : nationality.Honest asg)
    (hsa : saltAge.Honest asg) (hsg : saltGender.Honest asg) (hsn : saltNationality.Honest asg) :
    Complete asg (commitmentVar age gender nationality saltAge saltGender saltNationality)
      fun r => r.Honest asg ∧ r.value = Poseidon.hash
        [Poseidon.hash [Fr.ofWord 1, age.value, saltAge.value],
          Poseidon.hash [Fr.ofWord 2, gender.value, saltGender.value],
          Poseidon.hash [Fr.ofWord 3, nationality.value, saltNationality.value]] := by
  unfold commitmentVar
  refine Complete.bind (leafVar_value hone 1 ha hsa) fun l₁ h₁ => ?_
  refine Complete.bind (leafVar_value hone 2 hg hsg) fun l₂ h₂ => ?_
  refine Complete.bind (leafVar_value hone 3 hn hsn) fun l₃ h₃ => ?_
  obtain ⟨hl₁, hv₁⟩ := h₁
  obtain ⟨hl₂, hv₂⟩ := h₂
  obtain ⟨hl₃, hv₃⟩ := h₃
  -- the node hashes three honest leaves
  have hleaves : ∀ x ∈ [l₁, l₂, l₃], x.Honest asg := by
    intro x hx
    simp only [List.mem_cons, List.not_mem_nil, or_false] at hx
    rcases hx with rfl | rfl | rfl
    exacts [hl₁, hl₂, hl₃]
  refine (hashVar_value hone _ hleaves).mono fun r hr => ⟨hr.1, ?_⟩
  rw [hr.2, List.map_cons, List.map_cons, List.map_cons, List.map_nil, hv₁, hv₂, hv₃]
  rfl

/-- **The commitment is sound.** Once its constraints hold, its result evaluates to the native
commitment of what its inputs evaluate to. -/
theorem commitmentVar_sound (hone : asg Var.one = 1)
    (age gender nationality saltAge saltGender saltNationality : FieldVar) :
    Sound asg (commitmentVar age gender nationality saltAge saltGender saltNationality)
      fun r => r.lc.eval asg = Poseidon.hash
        [Poseidon.hash [Fr.ofWord 1, age.lc.eval asg, saltAge.lc.eval asg],
          Poseidon.hash [Fr.ofWord 2, gender.lc.eval asg, saltGender.lc.eval asg],
          Poseidon.hash [Fr.ofWord 3, nationality.lc.eval asg, saltNationality.lc.eval asg]] := by
  unfold commitmentVar
  refine Sound.bind (leafVar_sound hone 1 age saltAge) fun l₁ h₁ => ?_
  refine Sound.bind (leafVar_sound hone 2 gender saltGender) fun l₂ h₂ => ?_
  refine Sound.bind (leafVar_sound hone 3 nationality saltNationality) fun l₃ h₃ => ?_
  refine (hashVar_sound hone _ _).mono fun r hr => ?_
  rw [hr, List.map_cons, List.map_cons, List.map_cons, List.map_nil, h₁, h₂, h₃]
  rfl

end Commitment

end Circuit

end ZkPolicy
