import ZkPolicy.Proofs.Circuit.Shape

/-!
# How many witnesses the policy circuit allocates

Counting witness variables gadget by gadget would repeat the count of constraints. Most gadgets
allocate one witness with each constraint they emit: a product, a square, a boolean, a
connective. So this module counts the difference, a gadget's *surplus* of constraints over
witnesses, and looks closely only where the two part ways: a demand of equality emits a
constraint and allocates nothing, a nonzero test allocates a bit and a multiplier for three
constraints, and an attribute or salt is allocated with no constraint.

* `Surplus m d`: from every system, `m` emits `d` more constraints than it allocates witnesses.
  It adds up along `>>=` (`Surplus.bind`), over lists (`surplus_mapM`, `surplus_foldlM`) and
  over the two branches of an `if` that agree (`surplus_ite`).
* Powers are balanced whatever their base, and so is every S-box, round and permutation of
  Poseidon (`surplus_hashVar`): unlike the count of constraints, this count needs no argument
  about which lanes are constants.
* A demand of equality and a nonzero test have surplus one once a side is a variable; the gates
  follow (`surplus_ageGate`, `surplus_genderGate`, `surplus_nationalityGate`).
* `surplus_policyGates`: six attributes and salts against twenty-two demands and tests leave
  the circuit's body a surplus of 16; with its 2008 constraints, every policy system has
  `2008 - 16 = 1992` witness variables (`numWitnesses_policySystem`).
-/

namespace ZkPolicy

namespace Circuit

variable {α β γ : Type}

/-- **Surplus of constraints**: from every system, the builder emits `d` more constraints than
it allocates witnesses. -/
def Surplus (m : Build α) (d : Int) : Prop :=
  ∀ s, ((m.run s).2.constraints.size : Int) - (m.run s).2.witnesses.size =
    (s.constraints.size : Int) - s.witnesses.size + d

namespace Surplus

variable {m : Build α} {d e : Int}

/-- Surpluses add up along `>>=`; the second builder's may rely on what the first returns. -/
theorem bind_of {P : α → Prop} {f : α → Build β} (hm : Surplus m d) (hP : ∀ s, P (m.run s).1)
    (hf : ∀ a, P a → Surplus (f a) e) : Surplus (m >>= f) (d + e) := by
  intro s
  rw [run_bind, hf _ (hP s), hm s]
  omega

theorem bind {f : α → Build β} (hm : Surplus m d) (hf : ∀ a, Surplus (f a) e) :
    Surplus (m >>= f) (d + e) :=
  hm.bind_of (P := fun _ => True) (fun _ => trivial) fun a _ => hf a

theorem cast (h : Surplus m d) (hd : d = e) : Surplus m e := hd ▸ h

end Surplus

theorem surplus_pure (a : α) : Surplus (pure a) 0 := fun s => by
  rw [run_pure, Int.add_zero]

theorem surplus_newWitness (x : Fr) : Surplus (newWitness x) (-1) := fun s => by
  simp only [run_newWitness, Array.size_push]
  omega

theorem surplus_newInput (x : Fr) : Surplus (newInput x) 0 := fun s => by
  simp only [run_newInput, Int.add_zero]

theorem surplus_enforce (a b c : LinComb) : Surplus (enforce a b c) 1 := fun s => by
  simp only [run_enforce, Array.size_push]
  omega

theorem surplus_ite (c : Prop) [Decidable c] {m₁ m₂ : Build α} {d : Int} (h₁ : Surplus m₁ d)
    (h₂ : Surplus m₂ d) : Surplus (if c then m₁ else m₂) d := by
  by_cases hc : c
  · rwa [if_pos hc]
  · rwa [if_neg hc]

/-- Running a builder of surplus `d` on each element of a list has surplus `d` per element. -/
theorem surplus_mapM {f : γ → Build α} {d : Int} :
    ∀ {l : List γ}, (∀ x ∈ l, Surplus (f x) d) → Surplus (l.mapM f) (d * l.length)
  | [], _ => (surplus_pure _).cast (by simp)
  | x :: l, h => by
    rw [List.mapM_cons]
    have hx := h x List.mem_cons_self
    have hl := surplus_mapM fun y hy => h y (List.mem_cons_of_mem x hy)
    refine (hx.bind fun _ => hl.bind fun _ => surplus_pure _).cast ?_
    simp only [List.length_cons, Nat.cast_add, Nat.cast_one]
    ring

/-- A fold whose every step is balanced is balanced. -/
theorem surplus_foldlM {f : α → γ → Build α} (hf : ∀ acc x, Surplus (f acc x) 0) :
    ∀ (l : List γ) (init : α), Surplus (l.foldlM f init) 0
  | [], _ => surplus_pure _
  | x :: l, init => by
    rw [List.foldlM_cons]
    exact ((hf init x).bind fun acc => surplus_foldlM hf l acc).cast (Int.add_zero 0)

/-! ### Booleans: balanced, except a demand -/

namespace BoolVar

theorem surplus_alloc (b : Bool) : Surplus (alloc b) 0 :=
  ((surplus_newWitness _).bind fun _ => (surplus_enforce _ _ _).bind fun _ => surplus_pure _).cast
    (by omega)

theorem surplus_connective (value : Bool) (a b : LinComb) (c : LinComb → LinComb) :
    Surplus (connective value a b c) 0 :=
  ((surplus_newWitness _).bind fun _ => (surplus_enforce _ _ _).bind fun _ => surplus_pure _).cast
    (by omega)

/-- Each branch of a conjunction is a constant, an argument, or one connective. -/
theorem surplus_and (x y : BoolVar) : Surplus (x.and y) 0 := by
  unfold BoolVar.and
  split
  all_goals first
    | exact surplus_pure _
    | exact surplus_connective _ _ _ _

theorem surplus_or (x y : BoolVar) : Surplus (x.or y) 0 := by
  unfold BoolVar.or
  split
  -- a constant or an argument, a disjunction of two variables, or a negated conjunction
  · exact surplus_pure _
  · exact surplus_pure _
  · exact surplus_pure _
  · exact surplus_pure _
  · exact surplus_connective _ _ _ _
  · exact ((surplus_connective _ _ _ _).bind fun _ => surplus_pure _).cast (Int.add_zero 0)
  · exact ((surplus_and _ _).bind fun _ => surplus_pure _).cast (Int.add_zero 0)

theorem surplus_xor (x y : BoolVar) : Surplus (x.xor y) 0 := by
  unfold BoolVar.xor
  split
  -- an argument or its negation, or one connective, negated or not
  · exact surplus_pure _
  · exact surplus_pure _
  · exact surplus_pure _
  · exact surplus_pure _
  · exact ((surplus_connective _ _ _ _).bind fun _ => surplus_pure _).cast (Int.add_zero 0)
  · exact ((surplus_connective _ _ _ _).bind fun _ => surplus_pure _).cast (Int.add_zero 0)
  · exact surplus_connective _ _ _ _
  · exact surplus_connective _ _ _ _

theorem surplus_anyOf (hits : List BoolVar) : Surplus (anyOf hits) 0 := by
  cases hits with
  | nil => exact surplus_pure _
  | cons x xs => exact surplus_foldlM surplus_or xs x

theorem surplus_enforceEq (x : BoolVar) (b : Bool) : Surplus (x.enforceEq b) 1 :=
  surplus_enforce _ _ _

end BoolVar

/-! ### Field elements: products are balanced, demands and tests are not -/

namespace FieldVar

theorem surplus_witness (x : Fr) : Surplus (witness x) (-1) :=
  ((surplus_newWitness x).bind fun _ => surplus_pure _).cast (by omega)

theorem surplus_input (x : Fr) : Surplus (input x) 0 :=
  ((surplus_newInput x).bind fun _ => surplus_pure _).cast (Int.add_zero 0)

/-- A product allocates its result with its constraint, or is folded into a constant multiple. -/
theorem surplus_mul (x y : FieldVar) : Surplus (x.mul y) 0 := by
  unfold FieldVar.mul
  split
  · exact surplus_pure _
  · exact surplus_pure _
  · exact ((surplus_newWitness _).bind fun _ => (surplus_enforce _ _ _).bind fun _ =>
      surplus_pure _).cast (by omega)

theorem surplus_square (x : FieldVar) : Surplus x.square 0 := by
  unfold FieldVar.square
  split
  · exact surplus_pure _
  · exact ((surplus_newWitness _).bind fun _ => (surplus_enforce _ _ _).bind fun _ =>
      surplus_pure _).cast (by omega)

theorem surplus_powStep (x acc : FieldVar) (b : Bool) : Surplus (powStep x acc b) 0 :=
  ((surplus_square acc).bind fun acc' =>
    surplus_ite _ (surplus_mul acc' x) (surplus_pure acc')).cast (Int.add_zero 0)

/-- **Powers are balanced**, whatever the base and the exponent. -/
theorem surplus_pow (x : FieldVar) (e : Nat) : Surplus (x.pow e) 0 := by
  rw [pow_eq_foldlM]
  exact surplus_foldlM (surplus_powStep x) _ _

/-- A demand of equality emits one constraint unless both sides are constants. -/
theorem surplus_enforceEq {x y : FieldVar} (h : (x.isConst && y.isConst) = false) :
    Surplus (x.enforceEq y) 1 := by
  cases x <;> cases y
  · simp [isConst] at h
  all_goals exact surplus_enforce _ _ _

/-- A nonzero test allocates its bit and its multiplier for three constraints. -/
theorem surplus_isNonzero (δ : LinComb) (d : Fr) : Surplus (isNonzero δ d) 1 :=
  ((BoolVar.surplus_alloc _).bind fun _ => (surplus_newWitness _).bind fun _ =>
    (surplus_enforce _ _ _).bind fun _ => (surplus_enforce _ _ _).bind fun _ =>
      surplus_pure _).cast (by omega)

theorem surplus_isEq {x y : FieldVar} (h : (x.isConst && y.isConst) = false) :
    Surplus (x.isEq y) 1 := by
  cases x <;> cases y
  · simp [isConst] at h
  all_goals exact ((surplus_isNonzero _ _).bind fun _ => surplus_pure _).cast (Int.add_zero 1)

theorem surplus_isNeq {x y : FieldVar} (h : (x.isConst && y.isConst) = false) :
    Surplus (x.isNeq y) 1 :=
  ((surplus_isEq h).bind fun _ => surplus_pure _).cast (Int.add_zero 1)

end FieldVar

/-! ### Poseidon is balanced -/

section Sponge

open Poseidon FieldVar

variable (p : Params)

theorem surplus_sboxVar (i : Nat) (st : Vector FieldVar 3) : Surplus (sboxVar p i st) 0 := by
  unfold sboxVar
  refine surplus_ite _ ?_ ?_
  · rw [mapM_three]
    exact ((surplus_pow _ _).bind fun _ => (surplus_pow _ _).bind fun _ =>
      (surplus_pow _ _).bind fun _ => surplus_pure _).cast (by omega)
  · exact ((surplus_pow _ _).bind fun _ => surplus_pure _).cast (Int.add_zero 0)

theorem surplus_roundVar (i : Nat) (st : Vector FieldVar 3) : Surplus (roundVar p i st) 0 := by
  rw [roundVar_eq]
  exact ((surplus_sboxVar p i _).bind fun _ => surplus_pure _).cast (Int.add_zero 0)

theorem surplus_permuteVar (st : Vector FieldVar 3) : Surplus (permuteVar p st) 0 :=
  surplus_foldlM (fun st i => surplus_roundVar p i st) _ st

theorem SpongeVar.surplus_absorb (sp : SpongeVar) (x : FieldVar) : Surplus (sp.absorb p x) 0 := by
  rw [SpongeVar.absorb_eq]
  unfold SpongeVar.prepare
  refine ((surplus_ite _ ?_ (surplus_pure sp)).bind fun _ => surplus_pure _).cast (Int.add_zero 0)
  exact ((surplus_permuteVar p _).bind fun _ => surplus_pure _).cast (Int.add_zero 0)

theorem SpongeVar.surplus_squeeze (sp : SpongeVar) : Surplus (sp.squeeze p) 0 :=
  ((surplus_permuteVar p _).bind fun _ => surplus_pure _).cast (Int.add_zero 0)

/-- **A hash is balanced**, whatever its inputs: its constraints are its S-boxes' products. -/
theorem surplus_hashVar (xs : List FieldVar) : Surplus (hashVar p xs) 0 :=
  ((surplus_foldlM (SpongeVar.surplus_absorb p) xs _).bind fun sp =>
    SpongeVar.surplus_squeeze p sp).cast (Int.add_zero 0)

end Sponge

/-! ### The gates -/

section Gates

open FieldVar

variable {x : FieldVar}

theorem surplus_enforceBoolean (raw : UInt64) (hx : x.isConst = false) :
    Surplus (enforceBoolean raw x) 1 :=
  ((BoolVar.surplus_alloc _).bind fun _ =>
    (surplus_enforceEq (by rw [hx, Bool.and_false])).bind fun _ => surplus_pure _).cast
    (by omega)

theorem surplus_enforceBitBudget (raw : UInt64) (hx : x.isConst = false) (n : Nat) :
    Surplus (enforceBitBudget raw x n) 1 :=
  ((surplus_mapM fun _ _ => BoolVar.surplus_alloc _).bind fun _ =>
    (surplus_enforceEq (by rw [hx, Bool.and_false])).bind fun _ => surplus_pure _).cast
    (by simp)

/-- The age gate: three bit budgets and the demand on the comparison bit. -/
theorem surplus_ageGate (ageRaw requiredRaw : UInt64) {age required : FieldVar}
    (ha : age.isConst = false) (hr : required.isConst = false) (ageCheck : BoolVar) :
    Surplus (ageGate ageRaw requiredRaw age required ageCheck) 4 :=
  ((surplus_enforceBitBudget _ ha _).bind fun _ =>
    (surplus_enforceBitBudget _ hr _).bind fun _ =>
      (surplus_enforceBitBudget _ (by simp [ha, hr]) _).bind fun _ =>
        (BoolVar.surplus_and _ _).bind fun _ => BoolVar.surplus_enforceEq _ false).cast
    (by omega)

/-- The gender gate: two booleans and the demand on the mismatch. -/
theorem surplus_genderGate (genderRaw requiredRaw : UInt64) {gender required : FieldVar}
    (hg : gender.isConst = false) (hr : required.isConst = false) (genderCheck : BoolVar) :
    Surplus (genderGate genderRaw requiredRaw gender required genderCheck) 3 :=
  ((surplus_enforceBoolean _ hg).bind fun _ =>
    (surplus_enforceBoolean _ hr).bind fun _ =>
      (BoolVar.surplus_xor _ _).bind fun _ =>
        (BoolVar.surplus_and _ _).bind fun _ => BoolVar.surplus_enforceEq _ false).cast
    (by omega)

/-- Matching a country: two nonzero tests. -/
theorem surplus_matchVar {nationality country : FieldVar} (hn : nationality.isConst = false)
    (hc : country.isConst = false) : Surplus (matchVar nationality country) 2 :=
  ((surplus_isEq (by rw [hn, Bool.false_and])).bind fun _ =>
    (surplus_isNeq (by rw [hc, Bool.false_and])).bind fun _ => BoolVar.surplus_and _ _).cast
    (by omega)

/-- The nationality gate: two tests per country and the demand on the verdict. -/
theorem surplus_nationalityGate {nationality : FieldVar} (hn : nationality.isConst = false)
    {countries : List FieldVar} (hcs : ∀ c ∈ countries, c.isConst = false) (check : BoolVar) :
    Surplus (nationalityGate nationality countries check) (2 * countries.length + 1) :=
  (((surplus_mapM fun c hc => surplus_matchVar hn (hcs c hc)).bind fun hits =>
      BoolVar.surplus_anyOf hits).bind fun _ =>
    (BoolVar.surplus_and _ _).bind fun _ => BoolVar.surplus_enforceEq _ false).cast (by omega)

theorem surplus_commitmentVar (age gender nationality saltAge saltGender saltNationality : FieldVar) :
    Surplus (commitmentVar age gender nationality saltAge saltGender saltNationality) 0 :=
  ((surplus_hashVar _ _).bind fun _ => (surplus_hashVar _ _).bind fun _ =>
    (surplus_hashVar _ _).bind fun _ => surplus_hashVar _ _).cast (by omega)

/-- **The circuit's body has surplus 16** on signal variables that are not constants: six
attributes and salts allocated with no constraint, against the three flags' demands, the
gates' 4, 3 and 11, and the demand on the root. -/
theorem surplus_policyGates (p : Policy) (a : Attributes) (s : Salts) {signal : Nat → FieldVar}
    (hsig : ∀ i < Signal.count, (signal i).isConst = false) :
    Surplus (policyGates p a s signal) 16 := by
  have hcountries := forall_mem_countries (P := fun c => c.isConst = false) hsig
  have hlen : ((List.range 5).map fun i => signal (Signal.countries + i)).length = 5 := by simp
  unfold policyGates
  refine Surplus.cast ?_
    (show -1 + (-1 + (-1 + (-1 + (-1 + (-1 + (1 + (1 + (1 + (4 + (3 + (11 + (0 + 1)))))))))))) =
      (16 : Int) by omega)
  -- the attributes and salts are variables, as `emits_witness` records
  refine (surplus_witness _).bind_of (P := fun v => v.isConst = false)
    (fun s => (emits_witness _ s).2) fun age hage => ?_
  refine (surplus_witness _).bind_of (P := fun v => v.isConst = false)
    (fun s => (emits_witness _ s).2) fun gender hgender => ?_
  refine (surplus_witness _).bind_of (P := fun v => v.isConst = false)
    (fun s => (emits_witness _ s).2) fun nat hnat => ?_
  refine (surplus_witness _).bind fun saltAge => ?_
  refine (surplus_witness _).bind fun saltGender => ?_
  refine (surplus_witness _).bind fun saltNationality => ?_
  refine (surplus_enforceBoolean _ (hsig Signal.ageFlag (by decide))).bind fun ageCheck => ?_
  refine (surplus_enforceBoolean _ (hsig Signal.genderFlag (by decide))).bind
    fun genderCheck => ?_
  refine (surplus_enforceBoolean _ (hsig Signal.nationalityFlag (by decide))).bind
    fun nationalityCheck => ?_
  refine (surplus_ageGate _ _ hage (hsig Signal.requiredAge (by decide)) _).bind fun _ => ?_
  refine (surplus_genderGate _ _ hgender (hsig Signal.requiredGender (by decide)) _).bind
    fun _ => ?_
  refine ((surplus_nationalityGate hnat hcountries _).cast (by rw [hlen]; rfl)).bind fun _ => ?_
  refine (surplus_commitmentVar _ _ _ _ _ _).bind fun computed => ?_
  exact surplus_enforceEq (by rw [hsig Signal.root (by decide), Bool.and_false])

end Gates

/-- **Every policy system has 1992 witness variables**: its 2008 constraints less the body's
surplus of 16, the public inputs allocating none. -/
theorem numWitnesses_policySystem (p : Policy) (a : Attributes) (s : Salts) (root : Fr) :
    (policySystem p a s root).numWitnesses = 1992 := by
  have hsig : ∀ i < Signal.count, (signalVars (p.publicInputs root) i).isConst = false :=
    fun i hi => isConst_signalVars (by rwa [Policy.length_publicInputs])
  have hsurplus := surplus_policyGates p a s hsig { inputs := #[1] ++ (p.publicInputs root).toArray }
  have hconstraints := numConstraints_policySystem p a s root
  rw [System.numConstraints, policySystem_eq_run] at hconstraints
  rw [System.numWitnesses, policySystem_eq_run]
  -- the starting system holds neither witnesses nor constraints
  simp only [List.size_toArray, List.length_nil, Nat.cast_zero, sub_zero, zero_add] at hsurplus
  omega

end Circuit

end ZkPolicy
