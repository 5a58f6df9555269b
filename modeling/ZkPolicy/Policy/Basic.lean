import ZkPolicy.Poseidon.Sponge

/-!
# Policies, attributes and their commitment

A holder's attributes (age, gender, nationality) are committed to by a two-level Poseidon
tree: each attribute becomes a leaf `H(tag, value, salt)` with tags 1, 2, 3, and the root is
`H(leaf₁, leaf₂, leaf₃)`. A policy states what a proof must show about the committed
attributes: a minimum age, a gender and a list of admitted countries, each check switched by a
flag.

The public signals of a proof are the ten policy signals followed by the root:

| slot | signal |
|---|---|
| 0 | age check flag |
| 1 | required age |
| 2 | gender check flag |
| 3 | required gender |
| 4 | nationality check flag |
| 5 – 9 | admitted countries (zero is an empty slot) |
| 10 | commitment root |
-/

namespace ZkPolicy

/-- A policy. Flags are meant to be 0 or 1, and the circuit refuses other values. -/
structure Policy where
  ageCheck : UInt64 := 0
  requiredAge : UInt64 := 0
  genderCheck : UInt64 := 0
  requiredGender : UInt64 := 0
  nationalityCheck : UInt64 := 0
  allowedCountries : Vector UInt64 5 := #v[0, 0, 0, 0, 0]
deriving DecidableEq, Inhabited

/-- The attributes a credential commits to. -/
structure Attributes where
  age : UInt64 := 0
  gender : UInt64 := 0
  nationality : UInt64 := 0
deriving DecidableEq, Inhabited

/-- One blinding salt per attribute leaf. -/
structure Salts where
  age : Fr := 0
  gender : Fr := 0
  nationality : Fr := 0
deriving DecidableEq, Inhabited

namespace Signal

/-- Slot of the age check flag. -/
def ageFlag : Nat := 0
/-- Slot of the required age. -/
def requiredAge : Nat := 1
/-- Slot of the gender check flag. -/
def genderFlag : Nat := 2
/-- Slot of the required gender. -/
def requiredGender : Nat := 3
/-- Slot of the nationality check flag. -/
def nationalityFlag : Nat := 4
/-- Slot of the first admitted country. -/
def countries : Nat := 5
/-- Slot of the commitment root, after the ten policy signals. -/
def root : Nat := 10
/-- The number of public signals. -/
def count : Nat := 11

end Signal

namespace Policy

/-- The ten policy signals, in slot order. -/
def signals (p : Policy) : List Fr :=
  [p.ageCheck, p.requiredAge, p.genderCheck, p.requiredGender, p.nationalityCheck].map Fr.ofWord ++
    p.allowedCountries.toList.map Fr.ofWord

/-- The policy's digest: the hash of its ten signals. -/
def digest (p : Policy) : Fr := Poseidon.hash p.signals

/-- The public signals of a proof under the policy for the given root. -/
def publicInputs (p : Policy) (root : Fr) : List Fr := p.signals ++ [root]

@[simp] theorem length_signals (p : Policy) : p.signals.length = 10 := by
  simp [signals]

end Policy

/-- The leaf of one attribute: the hash of its tag, value and salt. -/
def attributeLeaf (tag value : UInt64) (salt : Fr) : Fr :=
  Poseidon.hash [Fr.ofWord tag, Fr.ofWord value, salt]

/-- The commitment root: the hash of the age, gender and nationality leaves. -/
def Attributes.commitment (a : Attributes) (s : Salts) : Fr :=
  Poseidon.hash [attributeLeaf 1 a.age s.age, attributeLeaf 2 a.gender s.gender,
    attributeLeaf 3 a.nationality s.nationality]

end ZkPolicy
