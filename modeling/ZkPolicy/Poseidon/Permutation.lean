import ZkPolicy.Bn254.Fr
import ZkPolicy.Poseidon.Grain

/-!
# The Poseidon permutation of width three

A Poseidon instance over `Fr` with a state of three elements. Each round adds that round's
constants, raises elements to the power `α` (every element in a full round, the first one only
in a partial round) and multiplies by the mixing matrix. The full rounds are split in two, one
half before the partial rounds and one after.

* `Poseidon.Params.generate` reads the constants off the Grain register: the round constants by
  rejection (numbers not below `r` are skipped), then six numbers reduced modulo `r`, `x₀ x₁ x₂`
  and `y₀ y₁ y₂`, which give the Cauchy matrix `mds i j = 1 / (xᵢ + yⱼ)`.
* `Poseidon.params` is the instance of the library: 8 full rounds, 57 partial rounds, `α = 5`.
-/

namespace ZkPolicy

namespace Poseidon

/-- The constants and shape of a width-three Poseidon instance. -/
structure Params where
  fullRounds : Nat
  partialRounds : Nat
  alpha : Nat
  /-- Round constants, one row per round. -/
  ark : Array (Vector Fr 3)
  /-- The mixing matrix, by rows. -/
  mds : Vector (Vector Fr 3) 3

/-- Elements fed per permutation. -/
def rate : Nat := 2

/-- Elements never fed nor read: the first lane of the state. -/
def capacity : Nat := 1

/-- The state of the permutation. -/
abbrev State := Vector Fr 3

/-- Bits of the numbers drawn from the register: the bit length of `r`. -/
def fieldBits : Nat := 254

/-- **Rejection.** The next number of `fieldBits` bits that lies below `r`. A draw lies below
`r` with probability above 3/4, so `tries` bounds a search that never comes near it. -/
def drawBelow (g : Grain) : Nat → Fr × Grain
  | 0 => (0, g)
  | tries + 1 =>
    let (k, g) := g.nextNumber fieldBits
    if h : k < Fr.modulus then (⟨k, h⟩, g) else drawBelow g tries

/-- **Reduction.** The next number of `fieldBits` bits, modulo `r`. -/
def drawReduced (g : Grain) : Fr × Grain :=
  let (k, g) := g.nextNumber fieldBits
  (Residue.ofNat Fr.modulus k, g)

/-- Three draws, in order. -/
def drawThree (draw : Grain → Fr × Grain) (g : Grain) : Vector Fr 3 × Grain :=
  let (a, g) := draw g
  let (b, g) := draw g
  let (c, g) := draw g
  (#v[a, b, c], g)

/-- `count` rows of three draws, in order. -/
def drawRows (draw : Grain → Fr × Grain) : Nat → Grain → List (Vector Fr 3) × Grain
  | 0, g => ([], g)
  | count + 1, g =>
    let (row, g) := drawThree draw g
    let (rest, g) := drawRows draw count g
    (row :: rest, g)

/-- The number of rounds of an instance. -/
def Params.rounds (p : Params) : Nat := p.fullRounds + p.partialRounds

/-- **Constant generation.** The round constants and the Cauchy matrix read off the Grain
register seeded with the instance's shape. -/
def Params.generate (fullRounds partialRounds alpha : Nat) : Params :=
  let g := Grain.init fieldBits 3 fullRounds partialRounds
  let ark := drawRows (fun g => drawBelow g 256) (fullRounds + partialRounds) g
  let xs := drawThree drawReduced ark.2
  let ys := drawThree drawReduced xs.2
  { fullRounds, partialRounds, alpha
    ark := ark.1.toArray
    mds := Vector.ofFn fun i => Vector.ofFn fun j => (xs.1.get i + ys.1.get j)⁻¹ }

/-- The instance of the library: 8 full rounds, 57 partial rounds, S-box `x ^ 5`. -/
def params : Params := Params.generate 8 57 5

/-- Whether round `i` is a full round: the first and the last `fullRounds / 2` are. -/
def Params.isFull (p : Params) (i : Nat) : Bool :=
  i < p.fullRounds / 2 || p.fullRounds / 2 + p.partialRounds ≤ i

/-- The S-box. -/
def Params.sbox (p : Params) (x : Fr) : Fr := x ^ p.alpha

/-- The mixing step: the matrix times the state. -/
def Params.mix (p : Params) (s : State) : State :=
  Vector.ofFn fun i => (List.finRange 3).foldl (fun acc j => acc + (p.mds.get i).get j * s.get j) 0

/-- The constants of round `i`; zero past the last row. -/
def Params.roundConstants (p : Params) (i : Nat) : Vector Fr 3 := p.ark.getD i (Vector.replicate 3 0)

/-- **Round `i`.** Constants, S-box on all lanes (full) or the first lane (partial), mixing. -/
def Params.round (p : Params) (i : Nat) (s : State) : State :=
  let ark := p.roundConstants i
  let s := Vector.ofFn fun k => s.get k + ark.get k
  let s := if p.isFull i then s.map p.sbox else s.setIfInBounds 0 (p.sbox (s.getD 0 0))
  p.mix s

/-- The permutation: all rounds in order. -/
def Params.permute (p : Params) (s : State) : State :=
  (List.range p.rounds).foldl (fun s i => p.round i s) s

end Poseidon

end ZkPolicy
