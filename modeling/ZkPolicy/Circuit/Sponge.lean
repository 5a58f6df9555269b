import ZkPolicy.Circuit.FieldVar
import ZkPolicy.Poseidon.Permutation

/-!
# Poseidon inside a circuit

The sponge of `Poseidon.Sponge` over field variables: the same rounds, absorption order and
squeeze, with each S-box `x ^ α` paid in constraints and everything else linear. A lane that
is still a constant (the zero capacity lane, or a lane holding a constant input) passes its
S-box for free, so the cost of a hash depends on which inputs are constants.
-/

namespace ZkPolicy

namespace Circuit

/-- The mixing step on variables: each new lane is `Σⱼ mds i j · sⱼ`, summed from zero. -/
def mixVar (p : Poseidon.Params) (s : Vector FieldVar 3) : Vector FieldVar 3 :=
  Vector.ofFn fun i =>
    (List.finRange 3).foldl (fun acc j => acc.add ((s.get j).scale ((p.mds.get i).get j))) (.const 0)

/-- Round `i` on variables: constants, S-boxes (every lane in a full round, lane 0 in a partial
round, in lane order), mixing. -/
def roundVar (p : Poseidon.Params) (i : Nat) (s : Vector FieldVar 3) :
    Build (Vector FieldVar 3) := do
  let ark := p.roundConstants i
  let s := Vector.ofFn fun k => (s.get k).add (.const (ark.get k))
  let s ← if p.isFull i then s.mapM (·.pow p.alpha) else do
    let x ← (s.getD 0 (.const 0)).pow p.alpha
    pure (s.setIfInBounds 0 x)
  pure (mixVar p s)

/-- The permutation on variables. -/
def permuteVar (p : Poseidon.Params) (s : Vector FieldVar 3) : Build (Vector FieldVar 3) :=
  (List.range p.rounds).foldlM (fun s i => roundVar p i s) s

/-- A sponge over variables in its absorbing phase. -/
structure SpongeVar where
  state : Vector FieldVar 3
  next : Nat

namespace SpongeVar

/-- The zero state. -/
def empty : SpongeVar := ⟨Vector.replicate 3 (.const 0), 0⟩

/-- Absorbs one element, permuting first when the rate is full. -/
def absorb (p : Poseidon.Params) (sp : SpongeVar) (x : FieldVar) : Build SpongeVar := do
  let sp ← if sp.next = Poseidon.rate then
      pure ⟨← permuteVar p sp.state, 0⟩
    else pure sp
  pure ⟨Vector.ofFn fun k =>
      if k.val = Poseidon.capacity + sp.next then (sp.state.get k).add x else sp.state.get k,
    sp.next + 1⟩

/-- Squeezes one element: permutes and reads the first rate lane. -/
def squeeze (p : Poseidon.Params) (sp : SpongeVar) : Build FieldVar := do
  let s ← permuteVar p sp.state
  pure (s.getD Poseidon.capacity (.const 0))

/-- Adds elements into consecutive rate lanes, the first into rate lane `lane`. -/
def addLanes (st : Vector FieldVar 3) (lane : Nat) : List FieldVar → Vector FieldVar 3
  | [] => st
  | x :: xs =>
    addLanes
      (Vector.ofFn fun k => if k.val = Poseidon.capacity + lane then (st.get k).add x else st.get k)
      (lane + 1) xs

/-- The loop of an absorbing call on variables, from rate lane `lane`, as in
`Poseidon.Sponge.absorbFrom`. -/
def absorbFrom (p : Poseidon.Params) (st : Vector FieldVar 3) (lane : Nat) (xs : List FieldVar) :
    Build SpongeVar :=
  if lane + xs.length ≤ Poseidon.rate then pure ⟨addLanes st lane xs, lane + xs.length⟩
  else do
    let st ← permuteVar p (addLanes st lane (xs.take (Poseidon.rate - lane)))
    absorbFrom p st 0 (xs.drop (Poseidon.rate - lane))
termination_by xs.length + lane
decreasing_by
  simp only [List.length_drop, Poseidon.rate] at *
  omega

/-- Absorbs a list of variables in one call, as in `Poseidon.Sponge.absorbSlice`. -/
def absorbSlice (p : Poseidon.Params) (sp : SpongeVar) (xs : List FieldVar) : Build SpongeVar :=
  if xs.isEmpty then pure sp
  else if sp.next = Poseidon.rate then do absorbFrom p (← permuteVar p sp.state) 0 xs
  else absorbFrom p sp.state sp.next xs

end SpongeVar

/-- The hash of a list of variables. -/
def hashVar (p : Poseidon.Params) (xs : List FieldVar) : Build FieldVar := do
  let sp ← xs.foldlM (SpongeVar.absorb p) SpongeVar.empty
  sp.squeeze p

end Circuit

end ZkPolicy
