import ZkPolicy.Bn254.Fr

/-!
# Variables and linear combinations

A rank-1 constraint system over `Fr` has instance variables (public; the first one is the
constant one) and witness variables (private). A linear combination is a sum `Σ aᵢ · xᵢ`,
kept in canonical form: terms in ascending variable order (instance variables first), one term
per variable, no zero coefficient. Adding two forms merges their term lists, so a form never
holds more terms than there are variables.
-/

namespace ZkPolicy

namespace Circuit

/-- A variable: instance `i` (instance 0 is the constant one) or witness `i`. -/
inductive Var where
  | inst (i : Nat)
  | wit (i : Nat)
deriving DecidableEq, Inhabited

namespace Var

/-- The constant one. -/
def one : Var := .inst 0

/-- Instance variables come first, then witnesses, each by index. -/
def lt : Var → Var → Bool
  | .inst i, .inst j => i < j
  | .inst _, .wit _ => true
  | .wit _, .inst _ => false
  | .wit i, .wit j => i < j

end Var

/-- A linear combination in canonical form. -/
structure LinComb where
  terms : List (Var × Fr)
deriving DecidableEq, Inhabited

namespace LinComb

/-- The empty sum. -/
def zero : LinComb := ⟨[]⟩

/-- A single variable. -/
def ofVar (v : Var) : LinComb := ⟨[(v, 1)]⟩

/-- A constant: a multiple of the variable one. -/
def const (c : Fr) : LinComb := if c = 0 then zero else ⟨[(Var.one, c)]⟩

/-- Merges two canonical term lists, adding coefficients of a shared variable and dropping a
sum that is zero. -/
def mergeTerms : List (Var × Fr) → List (Var × Fr) → List (Var × Fr)
  | [], ys => ys
  | xs@(_ :: _), [] => xs
  | (v, a) :: xs, (w, b) :: ys =>
    if v = w then
      if a + b = 0 then mergeTerms xs ys else (v, a + b) :: mergeTerms xs ys
    else if v.lt w then (v, a) :: mergeTerms xs ((w, b) :: ys)
    else (w, b) :: mergeTerms ((v, a) :: xs) ys
termination_by xs ys => xs.length + ys.length

/-- The sum of two combinations. -/
instance : Add LinComb := ⟨fun x y => ⟨mergeTerms x.terms y.terms⟩⟩

/-- A combination times a constant. -/
def scale (c : Fr) (x : LinComb) : LinComb :=
  if c = 0 then zero else ⟨x.terms.map fun (v, a) => (v, c * a)⟩

instance : Neg LinComb := ⟨scale (-1)⟩

instance : Sub LinComb := ⟨fun x y => x + -y⟩

/-- The value under an assignment of the variables. -/
def eval (value : Var → Fr) (x : LinComb) : Fr :=
  x.terms.foldl (fun acc (v, a) => acc + a * value v) 0

end LinComb

end Circuit

end ZkPolicy
