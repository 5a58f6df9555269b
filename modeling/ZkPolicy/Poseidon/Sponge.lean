import ZkPolicy.Poseidon.Permutation

/-!
# The Poseidon sponge and hash

A duplex sponge over the width-three permutation, with rate two and capacity one. Elements are
added one at a time into the rate lanes; when both rate lanes have been written and a further
element arrives, the state is permuted first. A squeeze permutes and reads the first rate lane.

* `Poseidon.hash xs` absorbs `xs` in order into the zero state and squeezes one element. The
  empty list hashes to the first rate lane of the permuted zero state.
* `Sponge.absorbAll_append`: absorbing `xs ++ ys` is absorbing `xs`, then `ys`.
-/

namespace ZkPolicy

namespace Poseidon

/-- A sponge in its absorbing phase: the state and the rate lane the next element goes to. -/
structure Sponge where
  state : State
  next : Nat

namespace Sponge

/-- The zero state, ready for its first element. -/
def empty : Sponge := ⟨Vector.replicate 3 0, 0⟩

/-- **Absorb one element.** Permutes first when the rate is full, then adds the element into
the next rate lane. -/
def absorb (p : Params) (sp : Sponge) (x : Fr) : Sponge :=
  let sp := if sp.next = rate then ⟨p.permute sp.state, 0⟩ else sp
  ⟨Vector.ofFn fun k => if k.val = capacity + sp.next then sp.state.get k + x else sp.state.get k,
    sp.next + 1⟩

/-- Absorbs a list of elements in order. -/
def absorbAll (p : Params) (sp : Sponge) (xs : List Fr) : Sponge := xs.foldl (absorb p) sp

/-- **Squeeze one element.** Permutes and reads the first rate lane. -/
def squeeze (p : Params) (sp : Sponge) : Fr := (p.permute sp.state).getD capacity 0

/-- Adds elements into consecutive rate lanes, the first into rate lane `lane`. -/
def addLanes (st : State) (lane : Nat) : List Fr → State
  | [] => st
  | x :: xs =>
    addLanes (Vector.ofFn fun k => if k.val = capacity + lane then st.get k + x else st.get k)
      (lane + 1) xs

/-- **The loop of an absorbing call**, from rate lane `lane`. Elements that fit in the rate are
added and the loop ends; otherwise the rate is filled, the state permuted, and the loop goes on
from the first rate lane. A call that ends exactly at the end of the rate does not permute. -/
def absorbFrom (p : Params) (st : State) (lane : Nat) (xs : List Fr) : Sponge :=
  if lane + xs.length ≤ rate then ⟨addLanes st lane xs, lane + xs.length⟩
  else absorbFrom p (p.permute (addLanes st lane (xs.take (rate - lane)))) 0 (xs.drop (rate - lane))
termination_by xs.length + lane
decreasing_by
  simp only [List.length_drop, rate] at *
  omega

/-- **Absorbing a list in one call.** The empty list changes nothing; otherwise a full rate is
permuted first, and the loop starts at the next free lane. -/
def absorbSlice (p : Params) (sp : Sponge) (xs : List Fr) : Sponge :=
  if xs.isEmpty then sp
  else if sp.next = rate then absorbFrom p (p.permute sp.state) 0 xs
  else absorbFrom p sp.state sp.next xs

theorem absorbAll_append (p : Params) (sp : Sponge) (xs ys : List Fr) :
    absorbAll p sp (xs ++ ys) = absorbAll p (absorbAll p sp xs) ys := by
  simp [absorbAll, List.foldl_append]

end Sponge

/-- The hash of a list under an instance. -/
def hashWith (p : Params) (xs : List Fr) : Fr := (Sponge.empty.absorbAll p xs).squeeze p

/-- The hash of the library's instance. -/
def hash (xs : List Fr) : Fr := hashWith params xs

end Poseidon

end ZkPolicy
