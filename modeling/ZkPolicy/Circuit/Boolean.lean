import ZkPolicy.Circuit.System

/-!
# Boolean variables

A boolean in a circuit is a constant, a variable holding 0 or 1, or the negation of such a
variable (which costs nothing: its combination is `1 - x`). Allocating a boolean witness emits
the booleanity constraint `(1 - x) · x = 0`. Each connective on two variables allocates its
result and emits one constraint:

| connective | constraint |
|---|---|
| `a ∧ b` | `a · b = r` |
| `a ∧ ¬b` | `a · (1 - b) = r` |
| `¬a ∧ ¬b` | `(1 - a) · (1 - b) = r` |
| `a ∨ b` | `(1 - a) · (1 - b) = 1 - r` |
| `a ⊕ b` | `2a · b = a + b - r` |

Constants and negations are folded away before any constraint is emitted, as the identities
`false ∧ x = false`, `true ∧ x = x`, `a ∨ b = ¬(¬a ∧ ¬b)`, `a ⊕ ¬b = ¬(a ⊕ b)` allow.
-/

namespace ZkPolicy

namespace Circuit

/-- A boolean: a constant, a variable (with its value), or a negated variable (with the
variable's value). -/
inductive BoolVar where
  | const (b : Bool)
  | pos (v : Var) (value : Bool)
  | neg (v : Var) (value : Bool)
deriving DecidableEq, Inhabited

namespace BoolVar

/-- The truth value. -/
def value : BoolVar → Bool
  | const b => b
  | pos _ b => b
  | neg _ b => !b

/-- The linear combination: `1`, `0`, `x` or `1 - x`. -/
def lc : BoolVar → LinComb
  | const b => LinComb.const (if b then 1 else 0)
  | pos v _ => LinComb.ofVar v
  | neg v _ => LinComb.const 1 - LinComb.ofVar v

/-- Negation, free of constraints. -/
def not : BoolVar → BoolVar
  | const b => const (!b)
  | pos v b => neg v b
  | neg v b => pos v b

/-- The field value of a truth value. -/
def bitValue (b : Bool) : Fr := if b then 1 else 0

/-- Allocates a boolean witness with its booleanity constraint `(1 - x) · x = 0`. -/
def alloc (b : Bool) : Build BoolVar := do
  let v ← newWitness (bitValue b)
  enforce (LinComb.const 1 - LinComb.ofVar v) (LinComb.ofVar v) LinComb.zero
  pure (pos v b)

/-- A fresh result `r` of a connective and its constraint `a · b = c(r)`. -/
def connective (value : Bool) (a b : LinComb) (c : LinComb → LinComb) : Build BoolVar := do
  let r ← newWitness (bitValue value)
  enforce a b (c (LinComb.ofVar r))
  pure (pos r value)

/-- `x ∧ y` of two variables. -/
def andVars (x y : Var) (vx vy : Bool) : Build BoolVar :=
  connective (vx && vy) (LinComb.ofVar x) (LinComb.ofVar y) id

/-- `x ∧ ¬y` of two variables. -/
def andNotVars (x y : Var) (vx vy : Bool) : Build BoolVar :=
  connective (vx && !vy) (LinComb.ofVar x) (LinComb.const 1 - LinComb.ofVar y) id

/-- `¬x ∧ ¬y` of two variables. -/
def norVars (x y : Var) (vx vy : Bool) : Build BoolVar :=
  connective (!vx && !vy) (LinComb.const 1 - LinComb.ofVar x) (LinComb.const 1 - LinComb.ofVar y) id

/-- `x ∨ y` of two variables. -/
def orVars (x y : Var) (vx vy : Bool) : Build BoolVar :=
  connective (vx || vy) (LinComb.const 1 - LinComb.ofVar x) (LinComb.const 1 - LinComb.ofVar y)
    (LinComb.const 1 - ·)

/-- `x ⊕ y` of two variables. -/
def xorVars (x y : Var) (vx vy : Bool) : Build BoolVar :=
  connective (vx != vy) (LinComb.scale 2 (LinComb.ofVar x)) (LinComb.ofVar y)
    (LinComb.ofVar x + LinComb.ofVar y - ·)

/-- Conjunction. -/
def and : BoolVar → BoolVar → Build BoolVar
  | const false, _ => pure (const false)
  | _, const false => pure (const false)
  | const true, y => pure y
  | x, const true => pure x
  | pos x vx, neg y vy => andNotVars x y vx vy
  | neg y vy, pos x vx => andNotVars x y vx vy
  | neg x vx, neg y vy => norVars x y vx vy
  | pos x vx, pos y vy => andVars x y vx vy

/-- Disjunction. -/
def or : BoolVar → BoolVar → Build BoolVar
  | const false, y => pure y
  | x, const false => pure x
  | const true, _ => pure (const true)
  | _, const true => pure (const true)
  | pos x vx, pos y vy => orVars x y vx vy
  | neg x vx, neg y vy => return (← andVars y x vy vx).not
  | x, y => return (← and x.not y.not).not

/-- Exclusive or. -/
def xor : BoolVar → BoolVar → Build BoolVar
  | const false, y => pure y
  | x, const false => pure x
  | const true, y => pure y.not
  | x, const true => pure x.not
  | pos x vx, neg y vy => return (← xorVars x y vx vy).not
  | neg y vy, pos x vx => return (← xorVars x y vx vy).not
  | pos x vx, pos y vy => xorVars x y vx vy
  | neg x vx, neg y vy => xorVars x y vx vy

/-- Whether two booleans differ: their exclusive or. -/
def isNeq (x y : BoolVar) : Build BoolVar := xor x y

/-- The disjunction of a list, folded from the left; the empty list is false. -/
def anyOf : List BoolVar → Build BoolVar
  | [] => pure (const false)
  | x :: xs => xs.foldlM or x

/-- Demands that the boolean equal the constant `b`: `(x - b) · 1 = 0`. -/
def enforceEq (x : BoolVar) (b : Bool) : Build Unit :=
  enforce (x.lc - (const b).lc) (LinComb.const 1) LinComb.zero

end BoolVar

end Circuit

end ZkPolicy
