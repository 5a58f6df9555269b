import ZkPolicy.Groth16.Setup

/-!
# The Groth16 prover, in the exponent

For an assignment `z` satisfying the system, write `A = Σ zₖ aₖ(τ)`, `B = Σ zₖ bₖ(τ)`,
`C = Σ zₖ cₖ(τ)`. Since the assignment satisfies every constraint, `A·B - C` is the vanishing
polynomial times a quotient `H`, evaluated at `τ`. With fresh scalars `r`, `s` the proof is

* `A = [α + A + rδ]g₁`,
* `B = [β + B + sδ]g₂`,
* `C = [s(α + A + rδ) + r(β + B + sδ) - rsδ + Σ_wit zₖ(β aₖ + α bₖ + cₖ)/δ + (A·B - C)/δ]g₁`.

These are the multi-scalar products over the published proving key, computed directly from
the scalars that key was made of. `r` and `s` are drawn in that order.
-/

namespace ZkPolicy

namespace Groth16

/-- The assignment in column order: instance values, then witness values. -/
def assignment (sys : Circuit.System) : Array Fr := sys.inputs ++ sys.witnesses

/-- `Σ zₖ pₖ` over all columns. -/
def weightedSum (z p : Array Fr) : Fr :=
  (z.zip p).foldl (fun acc (x, y) => acc + x * y) 0

/-- **Proving** with the setup for a satisfying assignment of its system. -/
def Setup.prove (st : Setup) (sys : Circuit.System) (g : Generator) : Proof × Generator :=
  let rDraw := Fr.sample g
  let sDraw := Fr.sample rDraw.2
  let r := rDraw.1
  let s := sDraw.1
  let t := st.trapdoor
  let z := assignment sys
  let a := weightedSum z st.qap.a
  let b := weightedSum z st.qap.b
  let c := weightedSum z st.qap.c
  let deltaInv := t.delta⁻¹
  let witnessPart := (List.range st.numWitnesses).foldl (fun acc k =>
    acc + z.getD (st.numInputs + k) 0 * t.combined st.qap (st.numInputs + k)) 0
  let sa := t.alpha + a + r * t.delta
  let sb := t.beta + b + s * t.delta
  let sc := s * sa + r * sb - r * s * t.delta + (witnessPart + (a * b - c)) * deltaInv
  (⟨t.g1.smul sa.val, t.g2.smul sb.val, t.g1.smul sc.val⟩, sDraw.2)

end Groth16

end ZkPolicy
