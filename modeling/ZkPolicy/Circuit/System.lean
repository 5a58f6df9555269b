import ZkPolicy.Circuit.LinComb

/-!
# Constraint systems and their construction

A constraint `⟨a, b, c⟩` demands `a · b = c` of the values of three linear combinations. A
`System` records, in order, the values of its instance and witness variables and its
constraints; a circuit is built in the state monad `Build` by allocating variables (each
allocation also records the value the builder knows for it) and by emitting constraints.

* `System.firstViolation` is the index of the first constraint the recorded values violate,
  and `System.isSatisfied` says there is none.
-/

namespace ZkPolicy

namespace Circuit

/-- A rank-1 constraint `a · b = c`. -/
structure Constraint where
  a : LinComb
  b : LinComb
  c : LinComb
deriving DecidableEq, Inhabited

/-- A constraint system with its assignment. -/
structure System where
  /-- Values of the instance variables; the first is the constant one. -/
  inputs : Array Fr := #[1]
  /-- Values of the witness variables. -/
  witnesses : Array Fr := #[]
  /-- The constraints, in the order they were emitted. -/
  constraints : Array Constraint := #[]
deriving Inhabited

/-- Building a circuit: a computation that allocates variables and emits constraints. -/
abbrev Build := StateM System

namespace System

/-- The value of a variable; zero for one not allocated. -/
def value (s : System) : Var → Fr
  | .inst i => s.inputs.getD i 0
  | .wit i => s.witnesses.getD i 0

/-- Whether the assignment satisfies a constraint. -/
def holds (s : System) (k : Constraint) : Bool :=
  k.a.eval s.value * k.b.eval s.value = k.c.eval s.value

/-- The index of the first violated constraint. -/
def firstViolation (s : System) : Option Nat := s.constraints.findIdx? fun k => !s.holds k

/-- Whether every constraint holds. -/
def isSatisfied (s : System) : Bool := s.firstViolation.isNone

/-- The number of instance variables, the constant one included. -/
def numInputs (s : System) : Nat := s.inputs.size

/-- The number of witness variables. -/
def numWitnesses (s : System) : Nat := s.witnesses.size

/-- The number of constraints. -/
def numConstraints (s : System) : Nat := s.constraints.size

end System

/-- Allocates a public input with the given value. -/
def newInput (x : Fr) : Build Var :=
  modifyGet fun s => (.inst s.inputs.size, { s with inputs := s.inputs.push x })

/-- Allocates a witness with the given value. -/
def newWitness (x : Fr) : Build Var :=
  modifyGet fun s => (.wit s.witnesses.size, { s with witnesses := s.witnesses.push x })

/-- Emits the constraint `a · b = c`. -/
def enforce (a b c : LinComb) : Build Unit :=
  modify fun s => { s with constraints := s.constraints.push ⟨a, b, c⟩ }

end Circuit

end ZkPolicy
