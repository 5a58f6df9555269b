import ZkPolicy.Field.Power

/-!
# Residues modulo a natural number

`Residue n` is the set `{0, …, n - 1}` with addition, subtraction and multiplication taken
modulo `n`. Both fields of the curve, its base field and its scalar field, are residues modulo
a prime, and every encoding of the library reads and writes the canonical representative, so
the type stores exactly that representative and nothing else.

* `Residue.inv` inverts by the extended Euclidean algorithm. For a prime modulus it is the
  field inverse of every nonzero residue, and it sends zero to zero.
* Powers are square-and-multiply (`powBySquaring`).
* `Residue.ofLE?` reads a little-endian byte string and refuses, rather than reduces, a
  number that is not below the modulus; `Residue.toLE` writes the representative back.
-/

namespace ZkPolicy

/-- A modulus: a positive number, so that every number has a residue modulo it. -/
class Modulus (n : Nat) : Prop where
  pos : 0 < n

/-- A residue modulo `n`, kept as its canonical representative `val < n`. -/
structure Residue (n : Nat) where
  /-- The canonical representative. -/
  val : Nat
  isLt : val < n
deriving DecidableEq

namespace Residue

variable {n : Nat}

theorem pos (a : Residue n) : 0 < n := Nat.lt_of_le_of_lt (Nat.zero_le _) a.isLt

/-- The residue of `k`, for a positive modulus. -/
def ofNat (n : Nat) [Modulus n] (k : Nat) : Residue n := ⟨k % n, Nat.mod_lt _ Modulus.pos⟩

@[simp] theorem val_ofNat (n k : Nat) [Modulus n] : (ofNat n k).val = k % n := rfl

instance [Modulus n] : OfNat (Residue n) k := ⟨ofNat n k⟩

instance [Modulus n] : Inhabited (Residue n) := ⟨ofNat n 0⟩

/-- Sum modulo `n`. -/
def add (a b : Residue n) : Residue n := ⟨(a.val + b.val) % n, Nat.mod_lt _ a.pos⟩

/-- Product modulo `n`. -/
def mul (a b : Residue n) : Residue n := ⟨(a.val * b.val) % n, Nat.mod_lt _ a.pos⟩

/-- Additive inverse: `n - a`, with zero sent to zero. -/
def neg (a : Residue n) : Residue n := ⟨(n - a.val) % n, Nat.mod_lt _ a.pos⟩

/-- Difference modulo `n`, computed as `a + (n - b)`. -/
def sub (a b : Residue n) : Residue n := ⟨(a.val + (n - b.val)) % n, Nat.mod_lt _ a.pos⟩

instance : Add (Residue n) := ⟨add⟩
instance : Mul (Residue n) := ⟨mul⟩
instance : Neg (Residue n) := ⟨neg⟩
instance : Sub (Residue n) := ⟨sub⟩

@[simp] theorem val_add (a b : Residue n) : (a + b).val = (a.val + b.val) % n := rfl
@[simp] theorem val_mul (a b : Residue n) : (a * b).val = (a.val * b.val) % n := rfl
@[simp] theorem val_neg (a : Residue n) : (-a).val = (n - a.val) % n := rfl
@[simp] theorem val_sub (a b : Residue n) : (a - b).val = (a.val + (n - b.val)) % n := rfl

/-- Residues are ordered by their representatives; the curve codecs compare this way. -/
instance : LT (Residue n) := ⟨fun a b => a.val < b.val⟩

instance (a b : Residue n) : Decidable (a < b) := inferInstanceAs (Decidable (a.val < b.val))

/-- Whether the residue is zero. -/
def isZero (a : Residue n) : Bool := a.val == 0

/-- **Extended Euclid.** From the remainders `r₀, r₁` and their coefficients `s₀, s₁` (with
`rᵢ ≡ sᵢ · a` modulo the first remainder), returns the gcd and its coefficient. -/
def bezout (r₀ r₁ : Nat) (s₀ s₁ : Int) : Nat × Int :=
  match r₁ with
  | 0 => (r₀, s₀)
  | r + 1 => bezout (r + 1) (r₀ % (r + 1)) s₁ (s₀ - ((r₀ / (r + 1) : Nat) : Int) * s₁)
termination_by r₁
decreasing_by exact Nat.mod_lt _ (Nat.succ_pos r)

/-- Multiplicative inverse modulo `n`: the coefficient of `a` in `gcd(n, a)`. For a prime `n`
it is the inverse of every nonzero residue; zero goes to zero. -/
def inv (a : Residue n) : Residue n :=
  let c := (bezout n a.val 0 1).2
  ⟨(c % (n : Int)).toNat % n, Nat.mod_lt _ a.pos⟩

instance : Inv (Residue n) := ⟨inv⟩

/-- `a / b = a · b⁻¹`. -/
instance : Div (Residue n) := ⟨fun a b => a * b⁻¹⟩

/-- `a ^ e`, by square and multiply. -/
def pow (a : Residue n) (e : Nat) : Residue n := powBySquaring ⟨1 % n, Nat.mod_lt _ a.pos⟩ a e

instance : HPow (Residue n) Nat (Residue n) := ⟨pow⟩

/-- The little-endian number of a byte string. -/
def leNat : List UInt8 → Nat
  | [] => 0
  | b :: rest => b.toNat + 256 * leNat rest

/-- The `width` lowest bytes of `k`, least significant first. -/
def leBytes (k : Nat) : Nat → List UInt8
  | 0 => []
  | width + 1 => UInt8.ofNat (k % 256) :: leBytes (k / 256) width

/-- The canonical encoding: the representative as 32 little-endian bytes. -/
def toLE (a : Residue n) : List UInt8 := leBytes a.val 32

/-- Reads a little-endian byte string. A number that is not below the modulus is refused, never
reduced. -/
def ofLE? (bytes : List UInt8) : Option (Residue n) :=
  if h : leNat bytes < n then some ⟨leNat bytes, h⟩ else none

@[simp] theorem leNat_nil : leNat [] = 0 := rfl

@[simp] theorem leNat_cons (b : UInt8) (rest : List UInt8) :
    leNat (b :: rest) = b.toNat + 256 * leNat rest := rfl

theorem ofLE?_eq_some_iff (bytes : List UInt8) (a : Residue n) :
    ofLE? bytes = some a ↔ leNat bytes = a.val := by
  unfold ofLE?
  constructor
  · intro h
    split at h
    · cases h; rfl
    · cases h
  · intro h
    have hlt : leNat bytes < n := h ▸ a.isLt
    simp only [hlt, dite_true, Option.some.injEq]
    cases a
    simp_all

end Residue

end ZkPolicy
