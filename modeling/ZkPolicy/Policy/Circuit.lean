import ZkPolicy.Circuit.Sponge
import ZkPolicy.Policy.Basic

/-!
# The policy circuit

The rank-1 constraint system by which a holder shows that the attributes behind a commitment
root satisfy a policy, without showing the attributes. Its public inputs are the eleven public
signals; its witnesses are the attributes, the salts, and the intermediate values of the
checks. In order, it demands:

1. each of the three check flags is 0 or 1;
2. the age and the required age fit in 8 bits;
3. `age + 256 - required` fits in 9 bits, and its top bit (set exactly when
   `age ≥ required`) is set if the age check is on;
4. the gender and the required gender are 0 or 1, and equal if the gender check is on;
5. if the nationality check is on, the nationality equals some nonzero admitted country;
6. the root recomputed from the attributes and salts equals the public root.

The constraints do not depend on the values: every input yields the same 2008 constraints
over 12 instance and 1992 witness variables, and only the assignment changes.
-/

namespace ZkPolicy

namespace Circuit

/-- The bits of a word used by the range checks: age values take 8 bits. -/
def ageBits : Nat := 8

/-- Allocates a boolean equal to `raw = 1` and binds it to `x`: unsatisfiable unless the value
of `x` is 0 or 1. -/
def enforceBoolean (raw : UInt64) (x : FieldVar) : Build BoolVar := do
  let b ← BoolVar.alloc (raw = 1)
  (FieldVar.ofBool b).enforceEq x
  pure b

/-- Allocates the `n` low bits of `raw` and binds their number to `x`: unsatisfiable unless the
value of `x` fits in `n` bits. -/
def enforceBitBudget (raw : UInt64) (x : FieldVar) (n : Nat) : Build (List BoolVar) := do
  let bits ← (List.range n).mapM fun i => BoolVar.alloc ((raw >>> i.toUInt64) &&& 1 = 1)
  (FieldVar.ofBitsLE bits).enforceEq x
  pure bits

/-- **The age gate.** The age and the required age fit in 8 bits, and with the age check on,
the age is at least the required one. The comparison reads the top bit of
`age + 2⁸ - required`, a 9-bit number that reaches `2⁸` exactly when `age ≥ required`. -/
def ageGate (ageRaw requiredRaw : UInt64) (age required : FieldVar) (ageCheck : BoolVar) :
    Build Unit := do
  let _ ← enforceBitBudget ageRaw age ageBits
  let _ ← enforceBitBudget requiredRaw required ageBits
  let offset : UInt64 := 1 <<< ageBits.toUInt64
  let diff := (age.add (.const (Fr.ofWord offset))).sub required
  let diffBits ← enforceBitBudget (ageRaw + offset - requiredRaw) diff (ageBits + 1)
  let ageOk := diffBits.getD ageBits (.const false)
  (← ageCheck.and ageOk.not).enforceEq false

/-- **The gender gate.** The gender and the required gender are 0 or 1, and equal if the gender
check is on. -/
def genderGate (genderRaw requiredRaw : UInt64) (gender required : FieldVar)
    (genderCheck : BoolVar) : Build Unit := do
  let g ← enforceBoolean genderRaw gender
  let r ← enforceBoolean requiredRaw required
  let mismatch ← g.isNeq r
  (← genderCheck.and mismatch).enforceEq false

/-- Whether the nationality equals the country and the country is not zero: a zero country is
an empty slot and matches nothing. -/
def matchVar (nationality country : FieldVar) : Build BoolVar := do
  let same ← nationality.isEq country
  let nonzero ← country.isNeq (.const 0)
  same.and nonzero

/-- Whether the nationality equals one of the countries that is not zero. -/
def admitsVar (nationality : FieldVar) (countries : List FieldVar) : Build BoolVar := do
  let hits ← countries.mapM (matchVar nationality)
  BoolVar.anyOf hits

/-- **The nationality gate.** With the nationality check on, the nationality is one of the
admitted countries, zero being an empty slot. -/
def nationalityGate (nationality : FieldVar) (countries : List FieldVar)
    (nationalityCheck : BoolVar) : Build Unit := do
  let admitted ← admitsVar nationality countries
  (← nationalityCheck.and admitted.not).enforceEq false

/-- The leaf of an attribute, hashed in the circuit. -/
def leafVar (tag : UInt64) (value salt : FieldVar) : Build FieldVar :=
  hashVar Poseidon.params [.const (Fr.ofWord tag), value, salt]

/-- The commitment root, recomputed in the circuit from the attributes and salts. -/
def commitmentVar (age gender nationality saltAge saltGender saltNationality : FieldVar) :
    Build FieldVar := do
  let l₁ ← leafVar 1 age saltAge
  let l₂ ← leafVar 2 gender saltGender
  let l₃ ← leafVar 3 nationality saltNationality
  hashVar Poseidon.params [l₁, l₂, l₃]

/-- The policy circuit once its public inputs are allocated, `signal i` being the variable of
slot `i`: the witnesses, the flags, the three gates and the commitment. -/
def policyGates (p : Policy) (a : Attributes) (s : Salts) (signal : Nat → FieldVar) :
    Build Unit := do
  let age ← FieldVar.witness (Fr.ofWord a.age)
  let gender ← FieldVar.witness (Fr.ofWord a.gender)
  let nationality ← FieldVar.witness (Fr.ofWord a.nationality)
  let saltAge ← FieldVar.witness s.age
  let saltGender ← FieldVar.witness s.gender
  let saltNationality ← FieldVar.witness s.nationality
  let ageCheck ← enforceBoolean p.ageCheck (signal Signal.ageFlag)
  let genderCheck ← enforceBoolean p.genderCheck (signal Signal.genderFlag)
  let nationalityCheck ← enforceBoolean p.nationalityCheck (signal Signal.nationalityFlag)
  ageGate a.age p.requiredAge age (signal Signal.requiredAge) ageCheck
  genderGate a.gender p.requiredGender gender (signal Signal.requiredGender) genderCheck
  nationalityGate nationality ((List.range 5).map fun i => signal (Signal.countries + i))
    nationalityCheck
  let computed ← commitmentVar age gender nationality saltAge saltGender saltNationality
  computed.enforceEq (signal Signal.root)

/-- **The policy circuit** for a policy, attributes, salts and public root. -/
def policyCircuit (p : Policy) (a : Attributes) (s : Salts) (root : Fr) : Build Unit := do
  let pub ← (p.publicInputs root).mapM FieldVar.input
  policyGates p a s fun i => pub.getD i (.const 0)

/-- The constraint system with its assignment, for the given public root. -/
def policySystem (p : Policy) (a : Attributes) (s : Salts) (root : Fr) : System :=
  ((policyCircuit p a s root).run {}).2

end Circuit

end ZkPolicy
