import ZkPolicy.Groth16.Domain
import ZkPolicy.Circuit.System

/-!
# The quadratic arithmetic program of a constraint system, at a point

Constraint `j` of a system is attached to the domain point `ωʲ`, and the instance variable `i`
additionally to the point `ω^(m + i)` past the `m` constraints (this keeps the instance
polynomials independent). For each variable `k`, the polynomials `aₖ`, `bₖ`, `cₖ` interpolate
its coefficients in the `a`, `b`, `c` parts of the constraints; here they are evaluated at one
point `τ`:

  `aₖ(τ) = Σⱼ Aⱼₖ Lⱼ(τ) (+ L_{m+k}(τ) for an instance variable)`, and likewise `bₖ`, `cₖ`.

Variables are numbered instance variables first, then witnesses.
-/

namespace ZkPolicy

namespace Groth16

open Circuit

/-- The QAP polynomials of every variable of a system at a point. -/
structure QapAt where
  a : Array Fr
  b : Array Fr
  c : Array Fr
deriving Inhabited

/-- The position of a variable: instance variables first, then witnesses. -/
def column (numInputs : Nat) : Var → Nat
  | .inst i => i
  | .wit i => numInputs + i

/-- Adds `weight · coeff` to the column of each term. -/
def accumulate (numInputs : Nat) (weight : Fr) (acc : Array Fr) (lc : LinComb) : Array Fr :=
  lc.terms.foldl (fun acc (v, coeff) => acc.modify (column numInputs v) (· + weight * coeff)) acc

/-- The QAP polynomials of the system's variables at the point whose Lagrange basis is
`lagrange`. -/
def qapAt (sys : System) (lagrange : Array Fr) : QapAt :=
  let width := sys.numInputs + sys.numWitnesses
  let zeros := Array.replicate width (0 : Fr)
  let m := sys.numConstraints
  let a := (List.range sys.numInputs).foldl (fun a i => a.modify i (fun _ => lagrange.getD (m + i) 0)) zeros
  let (_, a, b, c) := sys.constraints.foldl (fun (j, a, b, c) k =>
    let w := lagrange.getD j 0
    (j + 1, accumulate sys.numInputs w a k.a, accumulate sys.numInputs w b k.b,
      accumulate sys.numInputs w c k.c)) (0, a, zeros, zeros)
  ⟨a, b, c⟩

end Groth16

end ZkPolicy
