import ZkPolicy.Proofs.Circuit.Gates
import ZkPolicy.Policy.Prover
import ZkPolicy.Ledger.Sample

/-!
# The policy circuit meets its specification

The policy circuit allocates the eleven public signals, then the attributes and salts, and runs
its checks (`policyGates`). This module states what the whole circuit does, both ways:

* `policyChecks` lists the eleven conditions on the raw policy, attributes, salts and root, in
  the order the circuit checks them, each with the index of the constraint at which the honest
  run reports it. `policyGates_checks` composes the gates' `Checks` along the circuit, and the
  recorded system's first violation is the first failing condition
  (`firstViolation_policySystem`).
* `PolicyStatement x` is what an assignment satisfying the constraints shows about the public
  signals `x`: the flags and the required gender are bits, the required age fits in 8 bits, and
  some attributes (an 8-bit age, a gender bit) and salts commit to the root and pass every check
  whose flag is set. `policyGates_sound` composes the gates' soundness, whatever the witnesses.
* The prover, which builds the circuit under the root the attributes commit to, returns a proof
  exactly when every condition holds (`proveWith_eq_ok_iff`), and otherwise refuses with the
  index of the first failing one (`proveWith_eq_error_iff`).
-/

namespace ZkPolicy

/-! ### The public signals -/

theorem Signal.countries_add_lt_count {i : Nat} (hi : i < 5) : Signal.countries + i < Signal.count := by
  simp only [Signal.countries, Signal.count]
  omega

namespace Policy

theorem length_publicInputs (p : Policy) (root : Fr) :
    (p.publicInputs root).length = Signal.count := by
  simp [publicInputs, Signal.count]

theorem getD_publicInputs_country (p : Policy) (root : Fr) (i : Fin 5) :
    (p.publicInputs root).getD (Signal.countries + i) 0 = Fr.ofWord p.allowedCountries[i] := by
  obtain ⟨i, hi⟩ := i
  rw [Signal.countries, Nat.add_comm]
  simp [publicInputs, signals, List.getD_eq_getElem?_getD, List.getElem?_append_left, hi]

theorem getD_publicInputs_root (p : Policy) (root : Fr) :
    (p.publicInputs root).getD Signal.root 0 = root := by
  simp [publicInputs, signals, Signal.root, List.getD_eq_getElem?_getD]

end Policy

namespace Circuit

open LinComb BoolVar

/-! ### Allocation -/

namespace FieldVar

variable {asg : Assignment}

theorem run_input (x : Fr) (s : System) :
    (input x).run s = (var (ofVar (.inst s.inputs.size)) x, { s with inputs := s.inputs.push x }) :=
  rfl

theorem run_witness (x : Fr) (s : System) :
    (witness x).run s =
      (var (ofVar (.wit s.witnesses.size)) x, { s with witnesses := s.witnesses.push x }) :=
  rfl

instance grows_input {x : Fr} : Grows (input x) :=
  ⟨fun s => by rw [run_input]; exact System.le_pushInput s x⟩

instance grows_witness {x : Fr} : Grows (witness x) :=
  ⟨fun s => by rw [run_witness]; exact System.le_pushWitness s x⟩

theorem emits_input (x : Fr) : Emits (input x) 0 (·.isConst = false) := by
  intro s
  rw [run_input]
  exact ⟨rfl, rfl⟩

theorem emits_witness (x : Fr) : Emits (witness x) 0 (·.isConst = false) := by
  intro s
  rw [run_witness]
  exact ⟨rfl, rfl⟩

/-- An input is honest under an assignment that agrees with the run. -/
theorem input_complete (x : Fr) : Complete asg (input x) fun v => v.Honest asg ∧ v.value = x := by
  intro s hagree
  rw [run_input] at hagree ⊢
  refine ⟨System.holdsBetween_refl s asg, ?_, rfl⟩
  show (ofVar (.inst s.inputs.size)).eval asg = x
  rw [eval_ofVar]
  exact hagree.input_push le_rfl

/-- A witness is honest under an assignment that agrees with the run. -/
theorem witness_complete (x : Fr) :
    Complete asg (witness x) fun v => v.Honest asg ∧ v.value = x := by
  intro s hagree
  rw [run_witness] at hagree ⊢
  refine ⟨System.holdsBetween_refl s asg, ?_, rfl⟩
  show (ofVar (.wit s.witnesses.size)).eval asg = x
  rw [eval_ofVar]
  exact hagree.witness_push le_rfl

theorem witness_sound (x : Fr) : Sound asg (witness x) (·.isConst = false) :=
  fun _ _ => rfl

theorem emits_mapM_input (xs : List Fr) :
    Emits (xs.mapM input) 0 (List.Forall₂ (fun v _ => v.isConst = false) · xs) :=
  (Emits.mapM fun x _ => emits_input x).cast (Nat.zero_mul _)

/-- The inputs are honest, each with the value it was allocated with. -/
theorem mapM_input_complete (xs : List Fr) :
    Complete asg (xs.mapM input) (List.Forall₂ (fun v x => v.Honest asg ∧ v.value = x) · xs) :=
  Complete.mapM fun x _ => input_complete x

/-- The `i`-th input allocated from `s` is instance variable `s.inputs.size + i`. -/
theorem run_mapM_input_fst (xs : List Fr) (s : System) :
    ((xs.mapM input).run s).1 = xs.mapIdx fun i x => var (ofVar (.inst (s.inputs.size + i))) x := by
  induction xs generalizing s with
  | nil => rfl
  | cons x xs ih =>
    rw [List.mapM_cons, run_bind, run_input, run_bind, ih, List.mapIdx_cons]
    simp only [run_pure, Array.size_push, Nat.add_zero, Nat.add_right_comm _ 1, Nat.add_assoc]

/-- Demanding equality of two honest elements fails unless their values are equal. -/
theorem enforceEq_honest_checks (hone : asg Var.one = 1) {x y : FieldVar} (hx : x.Honest asg)
    (hy : y.Honest asg) (hyc : y.isConst = false) :
    Checks asg (x.enforceEq y) [(decide (x.value = y.value), 0)] fun _ => True := by
  cases y with
  | const c => cases hyc
  | var l v => exact enforceEq_checks hone hx hy

end FieldVar

/-! ### The conditions the circuit checks -/

/-- The conditions the policy circuit checks, in its order, each with the index of the
constraint at which an honest run reports it: the three flags are bits; the age and the
required age fit in 8 bits, and with the age check on the age reaches the required one; the
gender and the required gender are bits, equal with the gender check on; with the nationality
check on, a nonzero admitted country is the nationality; and the root is the commitment of the
attributes and salts. -/
def policyChecks (p : Policy) (a : Attributes) (s : Salts) (root : Fr) : List (Bool × Nat) :=
  [(decide (p.ageCheck ≤ 1), 1), (decide (p.genderCheck ≤ 1), 3),
    (decide (p.nationalityCheck ≤ 1), 5),
    (decide (a.age < 256), 14), (decide (p.requiredAge < 256), 23),
    (decide (p.ageCheck = 1 → p.requiredAge ≤ a.age), 35),
    (decide (a.gender ≤ 1), 37), (decide (p.requiredGender ≤ 1), 39),
    (decide (p.genderCheck = 1 → a.gender = p.requiredGender), 42),
    (decide (p.nationalityCheck = 1 →
      ∃ i : Fin 5, p.allowedCountries[i] ≠ 0 ∧ p.allowedCountries[i] = a.nationality), 83),
    (decide (root = a.commitment s), 2007)]

section Checks

variable {asg : Assignment}

/-- What holds of every signal holds of every country signal. -/
theorem forall_mem_countries {signal : Nat → FieldVar} {P : FieldVar → Prop}
    (h : ∀ i < Signal.count, P (signal i)) :
    ∀ k ∈ (List.range 5).map (fun i => signal (Signal.countries + i)), P k := by
  simp only [List.forall_mem_map, List.mem_range]
  intro i hi
  exact h _ (Signal.countries_add_lt_count hi)

/-- Among the policy's country signals, a nonzero one with the value of the word `n` is a
nonzero admitted country equal to `n`. -/
theorem exists_country_iff {p : Policy} {root : Fr} {signal : Nat → FieldVar}
    (hv : ∀ i < Signal.count, (signal i).value = (p.publicInputs root).getD i 0) (n : UInt64) :
    (∃ k ∈ (List.range 5).map (fun i => signal (Signal.countries + i)),
        k.value ≠ 0 ∧ k.value = Fr.ofWord n) ↔
      ∃ i : Fin 5, p.allowedCountries[i] ≠ 0 ∧ p.allowedCountries[i] = n := by
  have hslot (i : Fin 5) : (signal (Signal.countries + i)).value = Fr.ofWord p.allowedCountries[i] := by
    rw [hv _ (Signal.countries_add_lt_count i.isLt), Policy.getD_publicInputs_country]
  -- the zero word is the zero element
  have hzero (c : UInt64) : Fr.ofWord c = 0 ↔ c = 0 := Fr.ofWord_inj (b := 0)
  simp only [List.mem_map, List.mem_range]
  constructor
  · rintro ⟨_, ⟨i, hi, rfl⟩, hnz, heq⟩
    rw [hslot ⟨i, hi⟩] at hnz heq
    exact ⟨⟨i, hi⟩, fun h => hnz ((hzero _).2 h), Fr.ofWord_inj.1 heq⟩
  · rintro ⟨i, hnz, heq⟩
    refine ⟨_, ⟨i, i.isLt, rfl⟩, ?_⟩
    rw [hslot i, heq]
    exact ⟨fun h => hnz ((hzero _).1 (heq ▸ h)), rfl⟩

/-- On the policy's country signals, the nationality gate reports whether, with the check on, a
nonzero admitted country is the nationality word `n`. -/
theorem policyNationality_checks (hone : asg Var.one = 1) (p : Policy) (root : Fr) (n : UInt64)
    {signal : Nat → FieldVar}
    (hsig : ∀ i < Signal.count, (signal i).Honest asg ∧ (signal i).isConst = false ∧
      (signal i).value = (p.publicInputs root).getD i 0)
    {nationality : FieldVar} (hn : nationality.Honest asg) (hnv : nationality.value = Fr.ofWord n)
    (hnc : nationality.isConst = false) {w : Var}
    (hw : asg w = bitValue (decide (p.nationalityCheck = 1))) :
    Checks asg (nationalityGate nationality ((List.range 5).map fun i => signal (Signal.countries + i))
        (pos w (decide (p.nationalityCheck = 1))))
      [(decide (p.nationalityCheck = 1 →
        ∃ i : Fin 5, p.allowedCountries[i] ≠ 0 ∧ p.allowedCountries[i] = n), 40)] fun _ => True := by
  have hks : ∀ k ∈ (List.range 5).map (fun i => signal (Signal.countries + i)),
      k.Honest asg ∧ k.isConst = false :=
    forall_mem_countries fun i hi => ⟨(hsig i hi).1, (hsig i hi).2.1⟩
  apply Checks.congr (nationalityGate_checks hone hn hnc hks (by simp) hw)
  simp only [hnv, exists_country_iff (fun i hi => (hsig i hi).2.2) n, decide_eq_true_eq,
    List.length_map, List.length_range]

/-- **Checks of the policy circuit's body.** On honest signal variables holding the public
inputs, the honest run of the witnesses, flags, gates and commitment first fails at the index of
the first failing condition of `policyChecks`. -/
theorem policyGates_checks (hone : asg Var.one = 1) (p : Policy) (a : Attributes) (s : Salts)
    (root : Fr) {signal : Nat → FieldVar}
    (hsig : ∀ i < Signal.count, (signal i).Honest asg ∧ (signal i).isConst = false ∧
      (signal i).value = (p.publicInputs root).getD i 0) :
    Checks asg (policyGates p a s signal) (policyChecks p a s root) fun _ => True := by
  obtain ⟨h₀, h₀c, h₀v⟩ := hsig Signal.ageFlag (by decide)
  obtain ⟨h₁, h₁c, h₁v⟩ := hsig Signal.requiredAge (by decide)
  obtain ⟨h₂, h₂c, h₂v⟩ := hsig Signal.genderFlag (by decide)
  obtain ⟨h₃, h₃c, h₃v⟩ := hsig Signal.requiredGender (by decide)
  obtain ⟨h₄, h₄c, h₄v⟩ := hsig Signal.nationalityFlag (by decide)
  obtain ⟨h₁₀, h₁₀c, h₁₀v⟩ := hsig Signal.root (by decide)
  unfold policyGates
  apply Checks.congr
  · -- the attributes and salts are honest witnesses, under no constraint
    apply Checks.bind (FieldVar.witness_complete _).checks (FieldVar.emits_witness _)
    intro age hage hagec
    apply Checks.bind (FieldVar.witness_complete _).checks (FieldVar.emits_witness _)
    intro gender hgender hgenderc
    apply Checks.bind (FieldVar.witness_complete _).checks (FieldVar.emits_witness _)
    intro nationality hnat hnatc
    apply Checks.bind (FieldVar.witness_complete _).checks (FieldVar.emits_witness _)
    intro saltAge hsa _
    apply Checks.bind (FieldVar.witness_complete _).checks (FieldVar.emits_witness _)
    intro saltGender hsg _
    apply Checks.bind (FieldVar.witness_complete _).checks (FieldVar.emits_witness _)
    intro saltNationality hsn _
    -- each flag is bound to a bit that records it
    apply Checks.bind (enforceBoolean_checks hone p.ageCheck h₀ h₀v h₀c) (emits_enforceBoolean _ h₀c)
    rintro _ ⟨w₀, rfl, hw₀⟩ -
    apply Checks.bind (enforceBoolean_checks hone p.genderCheck h₂ h₂v h₂c)
      (emits_enforceBoolean _ h₂c)
    rintro _ ⟨w₂, rfl, hw₂⟩ -
    apply Checks.bind (enforceBoolean_checks hone p.nationalityCheck h₄ h₄v h₄c)
      (emits_enforceBoolean _ h₄c)
    rintro _ ⟨w₄, rfl, hw₄⟩ -
    apply Checks.bind (ageGate_checks hone a.age p.requiredAge hage.1 hage.2 hagec h₁ h₁v h₁c hw₀)
      (emits_ageGate _ _ hagec h₁c _ _)
    intro _ _ _
    apply Checks.bind
      (genderGate_checks hone a.gender p.requiredGender hgender.1 hgender.2 hgenderc h₃ h₃v h₃c hw₂)
      (emits_genderGate _ _ hgenderc h₃c _ _)
    intro _ _ _
    apply Checks.bind
      (policyNationality_checks hone p root a.nationality hsig hnat.1 hnat.2 hnatc hw₄)
      (emits_nationalityGate hnatc (forall_mem_countries fun i hi => (hsig i hi).2.1) (by simp) _ _)
    intro _ _ _
    apply Checks.bind (commitmentVar_value hone hage.1 hgender.1 hnat.1 hsa.1 hsg.1 hsn.1).checks
      (emits_commitmentVar hagec hgenderc hnatc _ _ _)
    intro computed hcomp _
    -- the recomputed root is the commitment of the attributes and salts
    have hcv : computed.value = a.commitment s := by
      rw [hcomp.2, hage.2, hgender.2, hnat.2, hsa.2, hsg.2, hsn.2]
      rfl
    apply Checks.congr (FieldVar.enforceEq_honest_checks hone hcomp.1 h₁₀ h₁₀c)
    show firstFailing _ = firstFailing [(decide (root = a.commitment s), 0)]
    simp only [hcv, h₁₀v, Policy.getD_publicInputs_root, eq_comm]
  · congr 1
    simp only [policyChecks, List.nil_append, List.cons_append, shiftBy_cons, shiftBy_nil,
      List.length_map, List.length_range, decide_eq_true_eq]

instance grows_policyGates {p : Policy} {a : Attributes} {s : Salts} {signal : Nat → FieldVar} :
    Grows (policyGates p a s signal) := by
  unfold policyGates
  infer_instance

instance grows_policyCircuit {p : Policy} {a : Attributes} {s : Salts} {root : Fr} :
    Grows (policyCircuit p a s root) := by
  unfold policyCircuit
  infer_instance

/-- **Checks of the policy circuit.** From every start, the honest run first fails at the index
of the first failing condition of `policyChecks`, the public inputs adding no constraint. -/
theorem policyCircuit_checks (hone : asg Var.one = 1) (p : Policy) (a : Attributes) (s : Salts)
    (root : Fr) : Checks asg (policyCircuit p a s root) (policyChecks p a s root) fun _ => True := by
  unfold policyCircuit
  apply Checks.congr
  · apply Checks.bind (FieldVar.mapM_input_complete _).checks (FieldVar.emits_mapM_input _)
    intro pub hpub hvars
    apply policyGates_checks hone p a s root
    intro i hi
    -- slot `i` is the `i`-th input, honest and holding the `i`-th public input
    have hlen : i < (p.publicInputs root).length := by rwa [Policy.length_publicInputs]
    obtain ⟨hh, hv⟩ := forall₂_getD hpub hlen (.const 0) 0
    exact ⟨hh, forall₂_getD hvars hlen (.const 0) 0, hv⟩
  · rw [List.nil_append, firstFailing_shiftBy]
    simp

end Checks

/-- The recorded system gives the constant one its value. The system is rewritten by its
equation rather than unfolded: the kernel would otherwise run the circuit to compare the two. -/
theorem policySystem_value_one (p : Policy) (a : Attributes) (s : Salts) (root : Fr) :
    (policySystem p a s root).value Var.one = 1 := by
  rw [policySystem.eq_1]
  exact System.value_one_of_le (Grows.le {})

/-- **The first violation of the policy system** is the first failing condition of
`policyChecks`: the recorded assignment violates no constraint exactly when every condition
holds, and otherwise violates first the constraint at which the first failing condition is
reported. -/
theorem firstViolation_policySystem (p : Policy) (a : Attributes) (s : Salts) (root : Fr) :
    (policySystem p a s root).firstViolation = firstFailing (policyChecks p a s root) := by
  have hone := policySystem_value_one p a s root
  rw [policySystem.eq_1] at hone
  rw [System.firstViolation_eq_firstFailure, policySystem.eq_1]
  obtain ⟨hfirst, -⟩ := policyCircuit_checks hone p a s root {} (System.agrees_value _)
  rw [hfirst]
  -- the empty system has no constraint to fail
  simp [System.firstFailure]

-- a flag of 2 is reported at the flag's own constraint, and an age of 256 at the age's budget
example : (policySystem { ageCheck := 2 } {} {} 0).firstViolation = some 1 := by
  rw [firstViolation_policySystem]
  decide

example : (policySystem {} { age := 256 } {} 0).firstViolation = some 14 := by
  rw [firstViolation_policySystem]
  decide

/-- **The policy circuit decides the policy.** The system the circuit records for a policy,
attributes, salts and root is satisfied exactly when the flags are bits, the age and required
age fit in 8 bits, the age reaches the required one if the age check is on, the gender and
required gender are bits and agree if the gender check is on, a nonzero admitted country is the
nationality if the nationality check is on, and the root is the attributes' commitment. When it
is not, its first violated constraint is the one at which the first failing of these conditions,
in this order, is reported. -/
theorem policySystem_satisfied_iff (p : Policy) (a : Attributes) (s : Salts) (root : Fr) :
    ((policySystem p a s root).isSatisfied = true ↔
      p.ageCheck ≤ 1 ∧ p.genderCheck ≤ 1 ∧ p.nationalityCheck ≤ 1 ∧ a.age < 256 ∧
        p.requiredAge < 256 ∧ (p.ageCheck = 1 → p.requiredAge ≤ a.age) ∧ a.gender ≤ 1 ∧
        p.requiredGender ≤ 1 ∧ (p.genderCheck = 1 → a.gender = p.requiredGender) ∧
        (p.nationalityCheck = 1 →
          ∃ i : Fin 5, p.allowedCountries[i] ≠ 0 ∧ p.allowedCountries[i] = a.nationality) ∧
        root = a.commitment s) ∧
    (policySystem p a s root).firstViolation = firstFailing (policyChecks p a s root) := by
  have hfirst := firstViolation_policySystem p a s root
  refine ⟨?_, hfirst⟩
  rw [System.isSatisfied, hfirst, Option.isNone_iff_eq_none, firstFailing_eq_none_iff]
  simp only [policyChecks, List.forall_mem_cons, List.not_mem_nil, decide_eq_true_eq,
    false_implies, implies_true, and_true]

/-! ### What a satisfying assignment shows -/

/-- The value an assignment gives the public signal of slot `i`: instance variable `i + 1`, the
first instance variable being the constant one. -/
def signalValue (asg : Assignment) (i : Nat) : Fr := asg (.inst (i + 1))

/-- What satisfying the policy circuit shows about the public signals `x`: the three flags and
the required gender are bits and the required age is below 256; and some age below 256, gender
bit, nationality and salts commit to the root, the age reaching the required one if the age
flag is set, the gender being the required one if the gender flag is set, and a nonzero country
slot holding the nationality if the nationality flag is set. -/
def PolicyStatement (x : Nat → Fr) : Prop :=
  (x Signal.ageFlag = 0 ∨ x Signal.ageFlag = 1) ∧
    (x Signal.genderFlag = 0 ∨ x Signal.genderFlag = 1) ∧
    (x Signal.nationalityFlag = 0 ∨ x Signal.nationalityFlag = 1) ∧
    (x Signal.requiredGender = 0 ∨ x Signal.requiredGender = 1) ∧
    (x Signal.requiredAge).val < 256 ∧
    ∃ age gender nationality saltAge saltGender saltNationality : Fr,
      age.val < 256 ∧ (gender = 0 ∨ gender = 1) ∧
      x Signal.root = Poseidon.hash [Poseidon.hash [Fr.ofWord 1, age, saltAge],
        Poseidon.hash [Fr.ofWord 2, gender, saltGender],
        Poseidon.hash [Fr.ofWord 3, nationality, saltNationality]] ∧
      (x Signal.ageFlag = 1 → (x Signal.requiredAge).val ≤ age.val) ∧
      (x Signal.genderFlag = 1 → gender = x Signal.requiredGender) ∧
      (x Signal.nationalityFlag = 1 →
        ∃ i < 5, x (Signal.countries + i) ≠ 0 ∧ x (Signal.countries + i) = nationality)

/-- Numbers below 256 keep their value in the field. -/
theorem val_natCast_of_lt {n : Nat} (hn : n < 256) : (n : Fr).val = n := by
  rw [Fr.val_natCast, Nat.mod_eq_of_lt (lt_trans hn (by decide))]

/-- The statement from what the gates force: flags read as bits `β₀ β₂ β₄`, an 8-bit age and
required age ordered when the age bit is set, gender bits equal when the gender bit is set, a
matching country slot when the nationality bit is set, and the root the commitment. -/
theorem policyStatement_of_gates {x : Nat → Fr} {β₀ β₂ β₄ : Bool}
    (age gender nationality saltAge saltGender saltNationality : Fr)
    (h₀ : x Signal.ageFlag = bitValue β₀) (h₂ : x Signal.genderFlag = bitValue β₂)
    (h₄ : x Signal.nationalityFlag = bitValue β₄)
    (hage : ∃ A R : Nat, A < 256 ∧ R < 256 ∧ age = A ∧ x Signal.requiredAge = R ∧
      (β₀ = true → R ≤ A))
    (hgender : ∃ γ ρ : Bool, gender = bitValue γ ∧ x Signal.requiredGender = bitValue ρ ∧
      (β₂ = true → γ = ρ))
    (hnat : β₄ = true →
      ∃ i < 5, x (Signal.countries + i) ≠ 0 ∧ x (Signal.countries + i) = nationality)
    (hroot : x Signal.root = Poseidon.hash [Poseidon.hash [Fr.ofWord 1, age, saltAge],
      Poseidon.hash [Fr.ofWord 2, gender, saltGender],
      Poseidon.hash [Fr.ofWord 3, nationality, saltNationality]]) :
    PolicyStatement x := by
  obtain ⟨A, R, hA, hR, rfl, hxR, hAR⟩ := hage
  obtain ⟨γ, ρ, rfl, hxρ, hγρ⟩ := hgender
  -- a bit is 0 or 1, and it is 1 exactly when it reads as set
  have hbit (β : Bool) : bitValue β = 0 ∨ bitValue β = 1 := by
    cases β
    · exact Or.inl rfl
    · exact Or.inr rfl
  have hset {β : Bool} (h : bitValue β = 1) : β = true := bitValue_injective (h.trans bitValue_true.symm)
  refine ⟨h₀ ▸ hbit β₀, h₂ ▸ hbit β₂, h₄ ▸ hbit β₄, hxρ ▸ hbit ρ, ?_, A, bitValue γ, nationality,
    saltAge, saltGender, saltNationality, ?_, hbit γ, hroot, ?_, ?_, ?_⟩
  · rw [hxR, val_natCast_of_lt hR]
    exact hR
  · rw [val_natCast_of_lt hA]
    exact hA
  · intro h
    rw [hxR, val_natCast_of_lt hR, val_natCast_of_lt hA]
    exact hAR (hset (h₀ ▸ h))
  · intro h
    rw [hxρ, hγρ (hset (h₂ ▸ h))]
  · intro h
    exact hnat (hset (h₄ ▸ h))

section Sound

variable {asg : Assignment}

/-- **Soundness of the policy circuit's body.** On signal variables that evaluate to `x`, an
assignment satisfying the constraints of the witnesses, flags, gates and commitment shows the
policy statement of `x`, whatever values it gives the witnesses. -/
theorem policyGates_sound (hone : asg Var.one = 1) (p : Policy) (a : Attributes) (s : Salts)
    {signal : Nat → FieldVar} (hsig : ∀ i < Signal.count, (signal i).isConst = false)
    {x : Nat → Fr} (hx : ∀ i < Signal.count, (signal i).lc.eval asg = x i) :
    Sound asg (policyGates p a s signal) fun _ => PolicyStatement x := by
  unfold policyGates
  refine Sound.bind (FieldVar.witness_sound _) fun age hagec => ?_
  refine Sound.bind (FieldVar.witness_sound _) fun gender hgc => ?_
  refine Sound.bind (FieldVar.witness_sound _) fun nationality hnc => ?_
  refine Sound.bind (FieldVar.witness_sound _) fun saltAge _ => ?_
  refine Sound.bind (FieldVar.witness_sound _) fun saltGender _ => ?_
  refine Sound.bind (FieldVar.witness_sound _) fun saltNationality _ => ?_
  -- each flag signal is a bit, read by the flag's boolean
  refine Sound.bind (enforceBoolean_sound hone p.ageCheck (hsig Signal.ageFlag (by decide)))
    fun ageCheck hA => ?_
  obtain ⟨β₀, hβ₀, h₀⟩ := hA
  refine Sound.bind (enforceBoolean_sound hone p.genderCheck (hsig Signal.genderFlag (by decide)))
    fun genderCheck hG => ?_
  obtain ⟨β₂, hβ₂, h₂⟩ := hG
  refine Sound.bind
    (enforceBoolean_sound hone p.nationalityCheck (hsig Signal.nationalityFlag (by decide)))
    fun nationalityCheck hN => ?_
  obtain ⟨β₄, hβ₄, h₄⟩ := hN
  refine Sound.bind
    (ageGate_sound hone a.age p.requiredAge hagec (hsig Signal.requiredAge (by decide)) hβ₀)
    fun _ hage => ?_
  refine Sound.bind
    (genderGate_sound hone a.gender p.requiredGender hgc (hsig Signal.requiredGender (by decide)) hβ₂)
    fun _ hgender => ?_
  refine Sound.bind (nationalityGate_sound hone hnc (forall_mem_countries hsig) (by simp) hβ₄)
    fun _ hnat => ?_
  refine Sound.bind (commitmentVar_sound hone age gender nationality saltAge saltGender saltNationality)
    fun computed hcomp => ?_
  -- the root signal is a variable, and the last constraint equates it with the recomputed root
  obtain ⟨l, v, hlv⟩ : ∃ l v, signal Signal.root = .var l v := by
    cases hr : signal Signal.root with
    | const c =>
      have hc := hsig Signal.root (by decide)
      rw [hr] at hc
      cases hc
    | var l v => exact ⟨l, v, rfl⟩
  rw [hlv]
  refine (FieldVar.enforceEq_sound hone computed l v).mono fun _ hroot => ?_
  refine policyStatement_of_gates (age.lc.eval asg) (gender.lc.eval asg) (nationality.lc.eval asg)
    (saltAge.lc.eval asg) (saltGender.lc.eval asg) (saltNationality.lc.eval asg)
    ((hx _ (by decide)).symm.trans h₀) ((hx _ (by decide)).symm.trans h₂)
    ((hx _ (by decide)).symm.trans h₄) ?_ ?_ ?_ ?_
  · obtain ⟨A, R, hA, hR, hAe, hRe, hAR⟩ := hage
    exact ⟨A, R, hA, hR, hAe, (hx _ (by decide)).symm.trans hRe, hAR⟩
  · obtain ⟨γ, ρ, hγ, hρ, hγρ⟩ := hgender
    exact ⟨γ, ρ, hγ, (hx _ (by decide)).symm.trans hρ, hγρ⟩
  · intro hset
    obtain ⟨k, hk, hnz, heq⟩ := hnat hset
    simp only [List.mem_map, List.mem_range] at hk
    obtain ⟨i, hi, rfl⟩ := hk
    rw [hx _ (Signal.countries_add_lt_count hi)] at hnz heq
    exact ⟨i, hi, hnz, heq⟩
  · rw [← hx _ (by decide), hlv, FieldVar.eval_lc_var, ← hroot, hcomp]

end Sound

/-- From the empty system, the signal variable of slot `i` is instance variable `i + 1`. -/
theorem getD_run_mapM_input (xs : List Fr) {i : Nat} (hi : i < xs.length) :
    ((xs.mapM FieldVar.input).run {}).1.getD i (.const 0) = .var (ofVar (.inst (i + 1))) xs[i] := by
  rw [FieldVar.run_mapM_input_fst, List.getD_eq_getElem _ _ (by simpa using hi), List.getElem_mapIdx]
  simp [Nat.add_comm]

/-- **Soundness of the policy circuit.** Every assignment that gives the constant one its value
and satisfies the constraints of the policy system, whatever values it gives the witnesses,
shows the policy statement of the public signals it assigns: the flags and required gender are
bits, the required age fits in 8 bits, and some 8-bit age, gender bit, nationality and salts
commit to the root and pass each check whose flag is set. -/
theorem policySystem_sound (p : Policy) (a : Attributes) (s : Salts) (root : Fr) (asg : Assignment)
    (hone : asg Var.one = 1) (hsat : (policySystem p a s root).HoldsAll asg) :
    PolicyStatement (signalValue asg) := by
  rw [policySystem.eq_1, policyCircuit.eq_1, run_bind] at hsat
  have hlen := Policy.length_publicInputs p root
  -- the signal of slot `i` is the instance variable after the `i` before it and the constant one
  have hslot (i : Nat) (hi : i < Signal.count) :=
    getD_run_mapM_input (p.publicInputs root) (i := i) (hlen ▸ hi)
  refine policyGates_sound hone p a s (fun i hi => ?_) (fun i hi => ?_) _ (hsat.holdsBetween _)
  · rw [hslot i hi]
    rfl
  · rw [hslot i hi, FieldVar.eval_lc_var, eval_ofVar]
    rfl

/-- The sample policy switches every check on (age 19 or more, gender 0, country 410 or 840).
The honest prover of the sample holder (age 23, gender 0, country 410), under the root of the
holder's commitment, satisfies the policy system, and the policy statement of its signals
follows. -/
theorem policySystem_sound_of_sample :
    let sys := policySystem Sample.policy Sample.attributes Sample.salts
      (Sample.attributes.commitment Sample.salts)
    sys.value Var.one = 1 ∧ sys.HoldsAll sys.value ∧ PolicyStatement (signalValue sys.value) := by
  intro sys
  have hone := policySystem_value_one Sample.policy Sample.attributes Sample.salts
    (Sample.attributes.commitment Sample.salts)
  have hsat : sys.HoldsAll sys.value := by
    rw [← System.firstFailure_eq_none_iff, ← System.firstViolation_eq_firstFailure,
      firstViolation_policySystem, firstFailing_eq_none_iff]
    simp [policyChecks, Sample.policy, Sample.attributes]
    decide
  exact ⟨hone, hsat, policySystem_sound _ _ _ _ _ hone hsat⟩

end Circuit

/-! ### The prover -/

open Circuit in
/-- **The prover refuses exactly the failing policies.** Proving with the root the attributes
commit to gives a proof, with the policy's public inputs, exactly when every condition of
`policyChecks` holds. -/
theorem proveWith_eq_ok_iff (st : Groth16.Setup) (p : Policy) (a : Attributes) (s : Salts)
    (g : Generator) :
    (∃ proof, proveWith st p a s g = .ok (proof, p.publicInputs (a.commitment s))) ↔
      ∀ c ∈ policyChecks p a s (a.commitment s), c.1 = true := by
  rw [← firstFailing_eq_none_iff, ← firstViolation_policySystem, proveWith.eq_1]
  -- the prover branches on the first violation of the recorded system
  cases (policySystem p a s (a.commitment s)).firstViolation with
  | some k => simp
  | none => simp

open Circuit in
/-- Otherwise the prover refuses with the index of the constraint at which the first failing
condition is reported. -/
theorem proveWith_eq_error_iff (st : Groth16.Setup) (p : Policy) (a : Attributes) (s : Salts)
    (g : Generator) (k : Nat) :
    proveWith st p a s g = .error (.violated k) ↔
      firstFailing (policyChecks p a s (a.commitment s)) = some k := by
  rw [← firstViolation_policySystem, proveWith.eq_1]
  cases (policySystem p a s (a.commitment s)).firstViolation with
  | some j => simp
  | none => simp

end ZkPolicy
