import ZkPolicy.Circuit.Boolean

/-!
# Field variables

A field element in a circuit is a constant or a linear combination together with its value.
Sums, differences and multiples by constants are linear and emit nothing; a product of two
non-constant elements allocates its result and emits `x · y = r`.

* `FieldVar.pow` raises to a constant power by square and multiply, most significant bit
  first; `x ^ 5` costs three constraints (`x²`, `x⁴`, `x⁵`).
* `FieldVar.isNeq` decides `x ≠ y` with a boolean witness `d`, the booleanity of `d`, and a
  multiplier `m` (the inverse of `x - y`, or one): `(x - y) · m = d` and `(x - y) · (1 - d) = 0`.
* `FieldVar.enforceEq` emits `(x - y) · 1 = 0`.
-/

namespace ZkPolicy

namespace Circuit

/-- A field element of a circuit: a constant, or a combination with its value. -/
inductive FieldVar where
  | const (c : Fr)
  | var (lc : LinComb) (value : Fr)
deriving DecidableEq, Inhabited

namespace FieldVar

/-- The value. -/
def value : FieldVar → Fr
  | const c => c
  | var _ x => x

/-- The linear combination; a constant is a multiple of the variable one. -/
def lc : FieldVar → LinComb
  | const c => LinComb.const c
  | var l _ => l

/-- Allocates a public input. -/
def input (x : Fr) : Build FieldVar := do
  let v ← newInput x
  pure (var (LinComb.ofVar v) x)

/-- Allocates a witness. -/
def witness (x : Fr) : Build FieldVar := do
  let v ← newWitness x
  pure (var (LinComb.ofVar v) x)

/-- The sum. -/
def add : FieldVar → FieldVar → FieldVar
  | const a, const b => const (a + b)
  | x, y => var (x.lc + y.lc) (x.value + y.value)

/-- The difference. -/
def sub : FieldVar → FieldVar → FieldVar
  | const a, const b => const (a - b)
  | x, y => var (x.lc - y.lc) (x.value - y.value)

/-- A multiple by a constant. -/
def scale (c : Fr) : FieldVar → FieldVar
  | const a => const (c * a)
  | var l x => var (LinComb.scale c l) (c * x)

/-- The product; two non-constant factors cost one constraint. -/
def mul : FieldVar → FieldVar → Build FieldVar
  | const a, y => pure (y.scale a)
  | x, const b => pure (x.scale b)
  | x, y => do
    let r ← newWitness (x.value * y.value)
    enforce x.lc y.lc (LinComb.ofVar r)
    pure (var (LinComb.ofVar r) (x.value * y.value))

/-- The square; a non-constant costs one constraint. -/
def square : FieldVar → Build FieldVar
  | const a => pure (const (a * a))
  | x => do
    let r ← newWitness (x.value * x.value)
    enforce x.lc x.lc (LinComb.ofVar r)
    pure (var (LinComb.ofVar r) (x.value * x.value))

/-- The bits of `e`, most significant first, without leading zeros. -/
def bitsMSB (e : Nat) : List Bool := (List.range (Nat.log2 e + 1)).reverse.map e.testBit

/-- `x ^ e` by square and multiply over the bits of `e`, starting from the constant one. -/
def pow (x : FieldVar) (e : Nat) : Build FieldVar :=
  (if e = 0 then [] else bitsMSB e).foldlM (fun acc b => do
    let acc ← acc.square
    if b then acc.mul x else pure acc) (const 1)

/-- Demands `x = y`. A constant on either side is written first; two constants emit
nothing. -/
def enforceEq : FieldVar → FieldVar → Build Unit
  | const _, const _ => pure ()
  | const c, y@(var _ _) => enforce (LinComb.const c - y.lc) (LinComb.const 1) LinComb.zero
  | x@(var _ _), const c => enforce (LinComb.const c - x.lc) (LinComb.const 1) LinComb.zero
  | x, y => enforce (x.lc - y.lc) (LinComb.const 1) LinComb.zero

/-- Whether a difference `δ` (with value `d`) is nonzero: a boolean witness, a multiplier, and
the constraints `δ · m = b` and `δ · (1 - b) = 0`. -/
def isNonzero (δ : LinComb) (d : Fr) : Build BoolVar := do
  let b ← BoolVar.alloc (d ≠ 0)
  let m ← newWitness (if d ≠ 0 then d⁻¹ else 1)
  enforce δ (LinComb.ofVar m) b.lc
  enforce δ b.not.lc LinComb.zero
  pure b

/-- Whether `x = y`. A constant on either side is written first in the difference. -/
def isEq : FieldVar → FieldVar → Build BoolVar
  | const a, const b => pure (.const (a = b))
  | const c, y@(var _ _) => return (← isNonzero (LinComb.const c - y.lc) (c - y.value)).not
  | x@(var _ _), const c => return (← isNonzero (LinComb.const c - x.lc) (c - x.value)).not
  | x, y => return (← isNonzero (x.lc - y.lc) (x.value - y.value)).not

/-- Whether `x ≠ y`. -/
def isNeq (x y : FieldVar) : Build BoolVar := return (← isEq x y).not

/-- A boolean as a field element, 0 or 1. -/
def ofBool (b : BoolVar) : FieldVar :=
  match b with
  | .const v => const (BoolVar.bitValue v)
  | b => var b.lc (BoolVar.bitValue b.value)

/-- The number `Σ 2ⁱ · bᵢ` of little-endian bits. -/
def ofBitsLE (bits : List BoolVar) : FieldVar :=
  let (lc, value, _) := bits.foldl (fun (lc, value, power) b =>
    (lc + LinComb.scale power b.lc, value + power * BoolVar.bitValue b.value, power + power))
    (LinComb.zero, (0 : Fr), (1 : Fr))
  if bits.all (fun b => b matches .const _) then const value else var lc value

end FieldVar

end Circuit

end ZkPolicy
