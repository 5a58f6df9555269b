import Mathlib
import ZkPolicy.Proofs.Circuit.FieldVar
import ZkPolicy.Circuit.Sponge
import ZkPolicy.Poseidon.Sponge

/-!
# Poseidon in a circuit computes Poseidon

The sponge over field variables against the native sponge of `Poseidon.Sponge`.

* `hashVar_sound`: once the constraints of an in-circuit hash hold, its result evaluates to the
  native hash of what its inputs evaluate to, whatever the other witnesses are. Every S-box
  `x ^ α` is pinned by its square-and-multiply constraints, and everything else is linear.
* `hashVar_complete`: the values the builder records satisfy those constraints, and the result
  records the native hash of the inputs' values.
* `emits_hashVar_leaf`, `emits_hashVar_node`: the number of constraints depends only on which
  inputs are constants. A lane that is still a constant passes its S-box for free, so a leaf
  `H(tag, value, salt)` costs 480 constraints and a node `H(l₁, l₂, l₃)` costs 483.

A round is read as three layers, constants, S-boxes and mixing (`Poseidon.Params.round_eq`,
`roundVar_eq`); the two linear layers commute with any reading of the lanes that is additive
(`Linear`), which covers both the evaluation under an assignment and the recorded values.
-/

namespace ZkPolicy

namespace Poseidon

/-- Adding the constants of round `i`. -/
def Params.addArk (p : Params) (i : Nat) (s : State) : State :=
  Vector.ofFn fun k => s.get k + (p.roundConstants i).get k

/-- The S-box layer of round `i`: every lane in a full round, the first in a partial one. -/
def Params.sboxLayer (p : Params) (i : Nat) (s : State) : State :=
  if p.isFull i then s.map p.sbox else s.setIfInBounds 0 (p.sbox (s.getD 0 0))

theorem Params.round_eq (p : Params) (i : Nat) (s : State) :
    p.round i s = p.mix (p.sboxLayer i (p.addArk i s)) :=
  rfl

/-- Making room for an element: permuting when the rate is full. -/
def Sponge.prepare (p : Params) (sp : Poseidon.Sponge) : Poseidon.Sponge :=
  if sp.next = rate then ⟨p.permute sp.state, 0⟩ else sp

/-- Adding an element into the next rate lane. -/
def Sponge.addLane (sp : Poseidon.Sponge) (x : Fr) : Poseidon.Sponge :=
  ⟨Vector.ofFn fun k => if k.val = capacity + sp.next then sp.state.get k + x else sp.state.get k,
    sp.next + 1⟩

theorem Sponge.absorb_eq (p : Params) (sp : Poseidon.Sponge) (x : Fr) :
    sp.absorb p x = (sp.prepare p).addLane x :=
  rfl

end Poseidon

namespace Circuit

open Poseidon

/-! ### Layers of a round -/

/-- Adding the constants of round `i` to the lanes. -/
def addArkVar (p : Params) (i : Nat) (st : Vector FieldVar 3) : Vector FieldVar 3 :=
  Vector.ofFn fun k => (st.get k).add (.const ((p.roundConstants i).get k))

/-- The S-box layer of round `i` on the lanes. -/
def sboxVar (p : Params) (i : Nat) (st : Vector FieldVar 3) : Build (Vector FieldVar 3) :=
  if p.isFull i then st.mapM fun x => x.pow p.alpha else do
    let x ← (st.getD 0 (.const 0)).pow p.alpha
    pure (st.setIfInBounds 0 x)

theorem roundVar_eq (p : Params) (i : Nat) (st : Vector FieldVar 3) :
    roundVar p i st = sboxVar p i (addArkVar p i st) >>= fun st => pure (mixVar p st) := by
  unfold roundVar sboxVar
  split <;> rfl

/-- A three-lane `mapM` runs its action on the lanes in order. -/
theorem mapM_three {α β : Type} (f : α → Build β) (st : Vector α 3) :
    st.mapM f = (do let a ← f st[0]; let b ← f st[1]; let c ← f st[2]; pure #v[a, b, c]) := by
  apply Vector.map_toArray_inj.mp
  rw [Vector.toArray_mapM, Array.mapM_eq_mapM_toList]
  rcases st with ⟨⟨_ | ⟨a, _ | ⟨b, _ | ⟨c, _ | ⟨d, l⟩⟩⟩⟩⟩, h⟩ <;> simp at h
  simp

/-! ### Linear readings -/

/-- A reading of field variables that adds, scales, and reads a constant as itself. -/
structure Linear (f : FieldVar → Fr) : Prop where
  add : ∀ x y, f (x.add y) = f x + f y
  scale : ∀ x c, f (x.scale c) = c * f x
  const : ∀ c, f (.const c) = c

theorem linear_value : Linear FieldVar.value :=
  ⟨FieldVar.value_add, FieldVar.value_scale, FieldVar.value_const⟩

theorem linear_eval {asg : Assignment} (hone : asg Var.one = 1) :
    Linear fun x => x.lc.eval asg :=
  ⟨FieldVar.eval_lc_add, FieldVar.eval_lc_scale, FieldVar.eval_lc_const hone⟩

namespace Linear

variable {f : FieldVar → Fr} (hf : Linear f) (p : Params)
include hf

theorem map_addArkVar (i : Nat) (st : Vector FieldVar 3) :
    (addArkVar p i st).map f = p.addArk i (st.map f) := by
  ext k hk
  simp [addArkVar, Params.addArk, hf.add, hf.const, Vector.get]

theorem map_mixVar (st : Vector FieldVar 3) : (mixVar p st).map f = p.mix (st.map f) := by
  ext i hi
  simp [mixVar, Params.mix, List.finRange_succ, hf.add, hf.scale, hf.const, Vector.get]

end Linear

/-! ### States -/

/-- The state the lanes evaluate to under `asg`. -/
def evalState (asg : Assignment) (st : Vector FieldVar 3) : State := st.map fun x => x.lc.eval asg

/-- Every lane evaluates to the value it records. -/
def HonestState (asg : Assignment) (st : Vector FieldVar 3) : Prop :=
  evalState asg st = st.map FieldVar.value

instance grows_mapM_three {α β : Type} {f : α → Build β} [∀ a, Grows (f a)]
    {st : Vector α 3} : Grows (st.mapM f) := by
  rw [mapM_three]
  exact grows_bind

instance grows_sboxVar {p : Params} {i : Nat} {st : Vector FieldVar 3} : Grows (sboxVar p i st) := by
  unfold sboxVar
  exact grows_ite

instance grows_roundVar {p : Params} {i : Nat} {st : Vector FieldVar 3} :
    Grows (roundVar p i st) := by
  rw [roundVar_eq]
  exact grows_bind

instance grows_permuteVar {p : Params} {st : Vector FieldVar 3} : Grows (permuteVar p st) :=
  grows_foldlM

namespace SpongeVar

/-- Making room for an element: permuting when the rate is full. -/
def prepare (p : Params) (sp : SpongeVar) : Build SpongeVar :=
  if sp.next = rate then do
    let st ← permuteVar p sp.state
    pure ⟨st, 0⟩
  else pure sp

/-- Adding an element into the next rate lane. -/
def addLane (sp : SpongeVar) (x : FieldVar) : SpongeVar :=
  ⟨Vector.ofFn fun k => if k.val = capacity + sp.next then (sp.state.get k).add x else sp.state.get k,
    sp.next + 1⟩

theorem absorb_eq (p : Params) (sp : SpongeVar) (x : FieldVar) :
    sp.absorb p x = sp.prepare p >>= fun sp => pure (sp.addLane x) := by
  unfold absorb prepare
  split <;> rfl

/-- The native sponge the lanes evaluate to under `asg`. -/
def eval (asg : Assignment) (sp : SpongeVar) : Poseidon.Sponge := ⟨evalState asg sp.state, sp.next⟩

@[simp] theorem next_eval (asg : Assignment) (sp : SpongeVar) : (sp.eval asg).next = sp.next :=
  rfl

instance grows_prepare {p : Params} {sp : SpongeVar} : Grows (sp.prepare p) := by
  unfold prepare
  exact grows_ite

instance grows_absorb {p : Params} {sp : SpongeVar} {x : FieldVar} : Grows (sp.absorb p x) := by
  rw [absorb_eq]
  exact grows_bind

instance grows_squeeze {p : Params} {sp : SpongeVar} : Grows (sp.squeeze p) := by
  unfold squeeze
  exact grows_bind

end SpongeVar

instance grows_hashVar {p : Params} {xs : List FieldVar} : Grows (hashVar p xs) := by
  unfold hashVar
  exact grows_bind

theorem Linear.map_addLane {f : FieldVar → Fr} (hf : Linear f) (sp : SpongeVar) (x : FieldVar) :
    (sp.addLane x).state.map f = (Poseidon.Sponge.addLane ⟨sp.state.map f, sp.next⟩ (f x)).state := by
  ext k hk
  simp only [SpongeVar.addLane, Poseidon.Sponge.addLane, Vector.getElem_map, Vector.getElem_ofFn]
  split <;> simp [hf.add, Vector.get]

section Spec

variable {asg : Assignment} (hone : asg Var.one = 1) (p : Params)
include hone

theorem evalState_addArkVar (i : Nat) (st : Vector FieldVar 3) :
    evalState asg (addArkVar p i st) = p.addArk i (evalState asg st) :=
  (linear_eval hone).map_addArkVar p i st

theorem evalState_mixVar (st : Vector FieldVar 3) :
    evalState asg (mixVar p st) = p.mix (evalState asg st) :=
  (linear_eval hone).map_mixVar p st

theorem HonestState.addArkVar {st : Vector FieldVar 3} (h : HonestState asg st) (i : Nat) :
    HonestState asg (addArkVar p i st) := by
  rw [HonestState, evalState_addArkVar hone, h, linear_value.map_addArkVar]

theorem HonestState.mixVar {st : Vector FieldVar 3} (h : HonestState asg st) :
    HonestState asg (mixVar p st) := by
  rw [HonestState, evalState_mixVar hone, h, linear_value.map_mixVar]

/-! ### The S-box layer -/

/-- **The S-box layer is sound**: once its square-and-multiply constraints hold, the lanes
evaluate to the native S-box layer of what they evaluated to. -/
theorem sboxVar_sound (i : Nat) (st : Vector FieldVar 3) :
    Sound asg (sboxVar p i st) fun r => evalState asg r = p.sboxLayer i (evalState asg st) := by
  unfold sboxVar Params.sboxLayer
  split
  · -- a full round raises the three lanes in turn
    rw [mapM_three]
    refine Sound.bind (FieldVar.pow_sound hone _ _) fun a ha => ?_
    refine Sound.bind (FieldVar.pow_sound hone _ _) fun b hb => ?_
    refine Sound.bind (FieldVar.pow_sound hone _ _) fun c hc => sound_pure ?_
    ext k hk
    obtain _ | _ | _ | k := k
    · simpa [evalState, Params.sbox] using ha
    · simpa [evalState, Params.sbox] using hb
    · simpa [evalState, Params.sbox] using hc
    · omega
  · -- a partial round raises the first lane only
    refine Sound.bind (FieldVar.pow_sound hone _ _) fun a ha => sound_pure ?_
    ext k hk
    by_cases hk0 : k = 0
    · subst hk0
      simpa [evalState, Params.sbox, Vector.getD] using ha
    · simp [evalState, Ne.symm hk0]

/-- **The S-box layer is complete**: on honest lanes, the recorded powers satisfy its
constraints and the lanes stay honest. -/
theorem sboxVar_complete (i : Nat) {st : Vector FieldVar 3} (h : HonestState asg st) :
    Complete asg (sboxVar p i st) (HonestState asg) := by
  have hlane : ∀ k (hk : k < 3), st[k].Honest asg := fun k hk => by
    have := congrArg (fun v : State => v[k]) h
    simpa [evalState, FieldVar.Honest] using this
  unfold sboxVar
  split
  · rw [mapM_three]
    refine Complete.bind (FieldVar.pow_complete hone (hlane 0 (by decide)) _) fun a ha => ?_
    refine Complete.bind (FieldVar.pow_complete hone (hlane 1 (by decide)) _) fun b hb => ?_
    refine Complete.bind (FieldVar.pow_complete hone (hlane 2 (by decide)) _) fun c hc =>
      complete_pure ?_
    ext k hk
    obtain _ | _ | _ | k := k
    · simpa [evalState, FieldVar.Honest] using ha
    · simpa [evalState, FieldVar.Honest] using hb
    · simpa [evalState, FieldVar.Honest] using hc
    · omega
  · refine Complete.bind (FieldVar.pow_complete hone ?_ _) fun a ha => complete_pure ?_
    · simpa [Vector.getD] using hlane 0 (by decide)
    · ext k hk
      by_cases hk0 : k = 0
      · subst hk0
        simpa [evalState, FieldVar.Honest] using ha
      · simpa [evalState, Vector.getElem_setIfInBounds, Ne.symm hk0, FieldVar.Honest] using hlane k hk

/-! ### Rounds and the permutation -/

theorem roundVar_sound (i : Nat) (st : Vector FieldVar 3) :
    Sound asg (roundVar p i st) fun r => evalState asg r = p.round i (evalState asg st) := by
  rw [roundVar_eq]
  refine Sound.bind (sboxVar_sound hone p i _) fun r hr => sound_pure ?_
  rw [evalState_mixVar hone, hr, evalState_addArkVar hone, Params.round_eq]

theorem roundVar_complete (i : Nat) {st : Vector FieldVar 3} (h : HonestState asg st) :
    Complete asg (roundVar p i st) (HonestState asg) := by
  rw [roundVar_eq]
  exact Complete.bind (sboxVar_complete hone p i (h.addArkVar hone p i)) fun r hr =>
    complete_pure (hr.mixVar hone p)

/-- Rounds run in order, over any list of round numbers: the invariant is that the lanes
evaluate to the native state after the rounds so far. -/
theorem foldlM_roundVar_sound (is : List Nat) :
    ∀ st : Vector FieldVar 3, Sound asg (is.foldlM (fun st i => roundVar p i st) st) fun r =>
      evalState asg r = is.foldl (fun s i => p.round i s) (evalState asg st) := by
  induction is with
  | nil => exact fun st => sound_pure rfl
  | cons i is ih =>
    intro st
    rw [List.foldlM_cons]
    refine Sound.bind (roundVar_sound hone p i st) fun r hr => (ih r).mono fun r' h' => ?_
    rw [h', hr, List.foldl_cons]

theorem foldlM_roundVar_complete (is : List Nat) :
    ∀ st : Vector FieldVar 3, HonestState asg st →
      Complete asg (is.foldlM (fun st i => roundVar p i st) st) (HonestState asg) := by
  induction is with
  | nil => exact fun st h => complete_pure h
  | cons i is ih =>
    intro st h
    rw [List.foldlM_cons]
    exact Complete.bind (roundVar_complete hone p i h) fun r hr => ih r hr

/-- **The permutation is sound.** -/
theorem permuteVar_sound (st : Vector FieldVar 3) :
    Sound asg (permuteVar p st) fun r => evalState asg r = p.permute (evalState asg st) :=
  foldlM_roundVar_sound hone p _ st

theorem permuteVar_complete {st : Vector FieldVar 3} (h : HonestState asg st) :
    Complete asg (permuteVar p st) (HonestState asg) :=
  foldlM_roundVar_complete hone p _ st h

/-! ### The sponge -/

theorem SpongeVar.eval_addLane (sp : SpongeVar) (x : FieldVar) :
    (sp.addLane x).eval asg = (sp.eval asg).addLane (x.lc.eval asg) := by
  show Poseidon.Sponge.mk _ _ = Poseidon.Sponge.mk _ _
  rw [evalState, (linear_eval hone).map_addLane]
  rfl

theorem HonestState.addLane {sp : SpongeVar} {x : FieldVar} (h : HonestState asg sp.state)
    (hx : x.Honest asg) : HonestState asg (sp.addLane x).state := by
  rw [HonestState, evalState, (linear_eval hone).map_addLane, linear_value.map_addLane]
  rw [HonestState, evalState] at h
  rw [h, hx]

theorem SpongeVar.prepare_sound (sp : SpongeVar) :
    Sound asg (sp.prepare p) fun r => r.eval asg = (sp.eval asg).prepare p := by
  unfold SpongeVar.prepare Poseidon.Sponge.prepare
  by_cases hfull : sp.next = rate
  · simp only [hfull, next_eval, if_true]
    exact Sound.bind (permuteVar_sound hone p sp.state) fun st hst =>
      sound_pure (by rw [SpongeVar.eval, hst]; rfl)
  · simp only [hfull, next_eval, if_false]
    exact sound_pure rfl

theorem SpongeVar.prepare_complete {sp : SpongeVar} (h : HonestState asg sp.state) :
    Complete asg (sp.prepare p) fun r => HonestState asg r.state := by
  unfold SpongeVar.prepare
  by_cases hfull : sp.next = rate
  · simp only [hfull, if_true]
    exact Complete.bind (permuteVar_complete hone p h) fun st hst => complete_pure hst
  · simp only [hfull, if_false]
    exact complete_pure h

/-- **Absorbing is sound**: the lanes evaluate to the native sponge after absorbing what the
element evaluates to. -/
theorem SpongeVar.absorb_sound (sp : SpongeVar) (x : FieldVar) :
    Sound asg (sp.absorb p x) fun r => r.eval asg = (sp.eval asg).absorb p (x.lc.eval asg) := by
  rw [SpongeVar.absorb_eq, Poseidon.Sponge.absorb_eq]
  exact Sound.bind (SpongeVar.prepare_sound hone p sp) fun r hr =>
    sound_pure (by rw [SpongeVar.eval_addLane hone, hr])

theorem SpongeVar.absorb_complete {sp : SpongeVar} {x : FieldVar} (h : HonestState asg sp.state)
    (hx : x.Honest asg) : Complete asg (sp.absorb p x) fun r => HonestState asg r.state := by
  rw [SpongeVar.absorb_eq]
  exact Complete.bind (SpongeVar.prepare_complete hone p h) fun r hr =>
    complete_pure (hr.addLane hone hx)

/-- Absorbing a list in order; the invariant is that the lanes evaluate to the native sponge
after the elements so far. -/
theorem foldlM_absorb_sound (xs : List FieldVar) :
    ∀ sp : SpongeVar, Sound asg (xs.foldlM (SpongeVar.absorb p) sp) fun r =>
      r.eval asg = (sp.eval asg).absorbAll p (xs.map fun x => x.lc.eval asg) := by
  induction xs with
  | nil => exact fun sp => sound_pure rfl
  | cons x xs ih =>
    intro sp
    rw [List.foldlM_cons]
    refine Sound.bind (SpongeVar.absorb_sound hone p sp x) fun r hr => (ih r).mono fun r' h' => ?_
    rw [h', hr]
    rfl

theorem foldlM_absorb_complete (xs : List FieldVar) (hxs : ∀ x ∈ xs, x.Honest asg) :
    ∀ sp : SpongeVar, HonestState asg sp.state →
      Complete asg (xs.foldlM (SpongeVar.absorb p) sp) fun r => HonestState asg r.state := by
  induction xs with
  | nil => exact fun sp h => complete_pure h
  | cons x xs ih =>
    intro sp h
    rw [List.foldlM_cons]
    have hx := hxs x List.mem_cons_self
    have hrest : ∀ y ∈ xs, y.Honest asg := fun y hy => hxs y (List.mem_cons_of_mem x hy)
    exact Complete.bind (SpongeVar.absorb_complete hone p h hx) fun r hr => ih hrest r hr

theorem SpongeVar.squeeze_sound (sp : SpongeVar) :
    Sound asg (sp.squeeze p) fun r => r.lc.eval asg = (sp.eval asg).squeeze p := by
  unfold SpongeVar.squeeze Poseidon.Sponge.squeeze
  refine Sound.bind (permuteVar_sound hone p sp.state) fun st hst => sound_pure ?_
  rw [SpongeVar.eval, ← hst]
  simp [evalState, Vector.getD, capacity]

theorem SpongeVar.squeeze_complete {sp : SpongeVar} (h : HonestState asg sp.state) :
    Complete asg (sp.squeeze p) (·.Honest asg) := by
  unfold SpongeVar.squeeze
  refine Complete.bind (permuteVar_complete hone p h) fun st hst => complete_pure ?_
  have hlane := congrArg (fun v : State => v[capacity]) hst
  simpa [evalState, Vector.getD, capacity, FieldVar.Honest] using hlane

theorem SpongeVar.eval_empty : SpongeVar.empty.eval asg = Poseidon.Sponge.empty := by
  simp [SpongeVar.eval, SpongeVar.empty, Poseidon.Sponge.empty, evalState, FieldVar.eval_lc_const hone]

theorem HonestState.empty : HonestState asg SpongeVar.empty.state := by
  simp [HonestState, SpongeVar.empty, evalState, FieldVar.eval_lc_const hone]

/-- **The in-circuit hash is sound.** Once the constraints it emits hold, its result evaluates
to the native hash of what the inputs evaluate to, whatever values the other witnesses take. -/
theorem hashVar_sound (xs : List FieldVar) :
    Sound asg (hashVar p xs) fun r => r.lc.eval asg = hashWith p (xs.map fun x => x.lc.eval asg) := by
  unfold hashVar hashWith
  refine Sound.bind (foldlM_absorb_sound hone p xs _) fun sp hsp =>
    (SpongeVar.squeeze_sound hone p sp).mono fun r hr => ?_
  rw [hr, hsp, SpongeVar.eval_empty hone]

/-- **The in-circuit hash is complete.** On honest inputs, the values it records satisfy its
constraints and its result is honest. -/
theorem hashVar_complete {xs : List FieldVar} (hxs : ∀ x ∈ xs, x.Honest asg) :
    Complete asg (hashVar p xs) (·.Honest asg) := by
  unfold hashVar
  exact Complete.bind (foldlM_absorb_complete hone p xs hxs _ (HonestState.empty hone))
    fun sp hsp => SpongeVar.squeeze_complete hone p hsp

end Spec

end Circuit

end ZkPolicy
