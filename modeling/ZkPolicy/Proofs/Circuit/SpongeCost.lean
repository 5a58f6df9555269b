import Mathlib
import ZkPolicy.Proofs.Circuit.Sponge

/-!
# How many constraints a Poseidon hash emits

The sponge over variables pays only for S-boxes, and only on lanes that are not constants. The
lanes of the starting state are constants, so which inputs are constants decides the cost of the
first permutation; after its first round the mixing matrix has spread the variables to every
lane, and each later round costs the same whatever the inputs.

* `emits_permuteVar`: a permutation whose first round is full, started on a state with at least
  one variable lane, pays the S-boxes of its variable lanes in the first round, then the full
  price of every later round, and leaves every lane a variable.
* `emits_hashVar_leaf`, `emits_hashVar_node`: with the library's instance (8 full rounds, 57
  partial rounds, `x ^ 5` at three constraints), a leaf `H(tag, value, salt)` with a constant
  tag costs 480 constraints, and a node `H(l₁, l₂, l₃)` of three variables costs 483.
-/

namespace ZkPolicy

namespace Poseidon

theorem params_fullRounds : params.fullRounds = 8 := rfl

theorem params_partialRounds : params.partialRounds = 57 := rfl

theorem params_alpha : params.alpha = 5 := rfl

end Poseidon

namespace Circuit

open Poseidon

/-! ### Which lanes are variables -/

/-- Every lane is a variable. -/
def AllVar (st : Vector FieldVar 3) : Prop := ∀ k (hk : k < 3), st[k].isConst = false

/-- Some lane is a variable. -/
def SomeVar (st : Vector FieldVar 3) : Prop := ∃ k, ∃ hk : k < 3, st[k].isConst = false

theorem AllVar.someVar {st : Vector FieldVar 3} (h : AllVar st) : SomeVar st := ⟨0, by decide, h 0 _⟩

@[simp] theorem isConst_addArkVar (p : Params) (i : Nat) (st : Vector FieldVar 3) (k : Nat)
    (hk : k < 3) : (addArkVar p i st)[k].isConst = st[k].isConst := by
  simp [addArkVar, Vector.get]

/-- Mixing gives every lane a share of every lane, so one variable lane makes all of them
variables. -/
theorem allVar_mixVar (p : Params) {st : Vector FieldVar 3} (h : SomeVar st) :
    AllVar (mixVar p st) := by
  obtain ⟨j, hj, hvar⟩ := h
  intro k hk
  have hlane : (mixVar p st)[k].isConst = (st[0].isConst && st[1].isConst && st[2].isConst) := by
    simp [mixVar, List.finRange_succ, Vector.get, Bool.and_assoc]
  rw [hlane]
  obtain _ | _ | _ | j := j
  · simp [hvar]
  · simp [hvar]
  · simp [hvar]
  · omega

@[simp] theorem vector_get_eq_getElem {α : Type} {n : Nat} (st : Vector α n) (k : Fin n) :
    st.get k = st[k] :=
  rfl

theorem SpongeVar.getElem_addLane (sp : SpongeVar) (x : FieldVar) {k : Nat} (hk : k < 3) :
    (sp.addLane x).state[k] = if k = capacity + sp.next then sp.state[k].add x else sp.state[k] := by
  simp [SpongeVar.addLane]

@[simp] theorem SpongeVar.next_addLane (sp : SpongeVar) (x : FieldVar) :
    (sp.addLane x).next = sp.next + 1 :=
  rfl

@[simp] theorem SpongeVar.getElem_empty {k : Nat} (hk : k < 3) :
    SpongeVar.empty.state[k] = .const 0 := by
  simp [SpongeVar.empty]

@[simp] theorem SpongeVar.next_empty : SpongeVar.empty.next = 0 := rfl

theorem AllVar.addLane {sp : SpongeVar} (h : AllVar sp.state) (x : FieldVar) :
    AllVar (sp.addLane x).state := by
  intro k hk
  rw [SpongeVar.getElem_addLane sp x hk]
  split <;> simp [h k hk]

/-! ### The S-box layer and the rounds -/

/-- The cost of raising a lane to a power costing `c`: nothing for a constant. -/
def laneCost (c : Nat) (x : FieldVar) : Nat := if x.isConst then 0 else c

theorem emits_pow_lane (x : FieldVar) {e : Nat} (he : e ≠ 0) :
    Emits (x.pow e) (laneCost (FieldVar.powCost e) x) (·.isConst = x.isConst) := by
  cases x with
  | const c => exact FieldVar.emits_pow_const c e
  | var l v => exact FieldVar.emits_pow_var rfl he

/-- The cost of round `i` on the lanes `st`: their S-boxes, the mixing being free. -/
def roundCost (p : Params) (i : Nat) (st : Vector FieldVar 3) : Nat :=
  if p.isFull i then
    laneCost (FieldVar.powCost p.alpha) (st.getD 0 (.const 0)) +
      laneCost (FieldVar.powCost p.alpha) (st.getD 1 (.const 0)) +
      laneCost (FieldVar.powCost p.alpha) (st.getD 2 (.const 0))
  else laneCost (FieldVar.powCost p.alpha) (st.getD 0 (.const 0))

theorem getD_eq_getElem {α : Type} {n : Nat} (st : Vector α n) {k : Nat} (hk : k < n) (d : α) :
    st.getD k d = st[k] := by
  simp [Vector.getD, hk]

/-- The S-box layer keeps each lane a constant or a variable, as it was. -/
theorem emits_sboxVar (p : Params) (hα : p.alpha ≠ 0) (i : Nat) (st : Vector FieldVar 3) :
    Emits (sboxVar p i st) (roundCost p i st) fun r => ∀ k (hk : k < 3), r[k].isConst = st[k].isConst := by
  unfold sboxVar roundCost
  simp only [getD_eq_getElem st (by decide : 0 < 3), getD_eq_getElem st (by decide : 1 < 3),
    getD_eq_getElem st (by decide : 2 < 3)]
  split
  · rw [mapM_three, Nat.add_assoc, ← Nat.add_zero (laneCost _ st[2])]
    refine Emits.bind (emits_pow_lane _ hα) fun a ha => ?_
    refine Emits.bind (emits_pow_lane _ hα) fun b hb => ?_
    refine Emits.bind (emits_pow_lane _ hα) fun c hc => emits_pure ?_
    intro k hk
    obtain _ | _ | _ | k := k
    · exact ha
    · exact hb
    · exact hc
    · omega
  · rw [← Nat.add_zero (laneCost _ st[0])]
    refine Emits.bind (emits_pow_lane _ hα) fun a ha => emits_pure ?_
    intro k hk
    by_cases hk0 : k = 0
    · subst hk0
      simpa using ha
    · simp [Ne.symm hk0]

/-- A round on lanes with a variable among them leaves every lane a variable. -/
theorem emits_roundVar (p : Params) (hα : p.alpha ≠ 0) (i : Nat) {st : Vector FieldVar 3}
    (h : SomeVar st) : Emits (roundVar p i st) (roundCost p i (addArkVar p i st)) AllVar := by
  rw [roundVar_eq, ← Nat.add_zero (roundCost _ _ _)]
  refine Emits.bind (emits_sboxVar p hα i _) fun r hr => emits_pure (allVar_mixVar p ?_)
  obtain ⟨k, hk, hvar⟩ := h
  exact ⟨k, hk, by rw [hr k hk, isConst_addArkVar, hvar]⟩

/-- The price of round `i` once every lane is a variable. -/
def fullCost (p : Params) (i : Nat) : Nat :=
  if p.isFull i then 3 * FieldVar.powCost p.alpha else FieldVar.powCost p.alpha

theorem roundCost_of_allVar (p : Params) (i : Nat) {st : Vector FieldVar 3} (h : AllVar st) :
    roundCost p i st = fullCost p i := by
  simp only [roundCost, fullCost, laneCost, getD_eq_getElem st (by decide : 0 < 3),
    getD_eq_getElem st (by decide : 1 < 3), getD_eq_getElem st (by decide : 2 < 3),
    h 0 (by decide), h 1 (by decide), h 2 (by decide)]
  split <;> simp
  omega

theorem allVar_addArkVar (p : Params) (i : Nat) {st : Vector FieldVar 3} (h : AllVar st) :
    AllVar (addArkVar p i st) := fun k hk => by rw [isConst_addArkVar, h k hk]

/-- Rounds over lanes that are all variables cost their full price each. -/
theorem emits_foldlM_roundVar (p : Params) (hα : p.alpha ≠ 0) (is : List Nat) :
    ∀ st : Vector FieldVar 3, AllVar st →
      Emits (is.foldlM (fun st i => roundVar p i st) st) (is.map (fullCost p)).sum AllVar := by
  induction is with
  | nil => exact fun st h => emits_pure h
  | cons i is ih =>
    intro st h
    rw [List.foldlM_cons, List.map_cons, List.sum_cons,
      ← roundCost_of_allVar p i (allVar_addArkVar p i h)]
    exact Emits.bind (emits_roundVar p hα i h.someVar) fun r hr => ih r hr

/-- **The cost of a permutation.** Its first round, a full one, pays for the variable lanes it
starts with; every later round pays its full price. -/
theorem emits_permuteVar (p : Params) (hα : p.alpha ≠ 0) (hfull : p.isFull 0)
    (hrounds : 0 < p.rounds) {st : Vector FieldVar 3} (h : SomeVar st) :
    Emits (permuteVar p st)
      (roundCost p 0 st + ((List.range (p.rounds - 1)).map fun i => fullCost p (i + 1)).sum)
      AllVar := by
  unfold permuteVar
  obtain ⟨n, hn⟩ : ∃ n, p.rounds = n + 1 := ⟨p.rounds - 1, by omega⟩
  rw [hn, List.range_succ_eq_map, List.foldlM_cons, Nat.add_sub_cancel]
  -- the first round's S-boxes see the lanes after its constants, constant where they were
  have hcost : roundCost p 0 st = roundCost p 0 (addArkVar p 0 st) := by
    simp [roundCost, laneCost, hfull, getD_eq_getElem]
  have hrest : (List.range n).map (fun i => fullCost p (i + 1)) =
      ((List.range n).map Nat.succ).map (fullCost p) := by
    rw [List.map_map]
    rfl
  rw [hcost, hrest]
  exact Emits.bind (emits_roundVar p hα 0 h) fun r hr =>
    emits_foldlM_roundVar p hα _ r hr

/-! ### The library's instance -/

/-- `x ^ 5` costs three constraints: `x²`, `x⁴`, `x⁵`. -/
theorem powCost_alpha : FieldVar.powCost params.alpha = 3 := by
  rw [params_alpha]
  decide

theorem isFull_zero : params.isFull 0 = true := by
  simp [Params.isFull, params_fullRounds]

/-- The 64 rounds after the first cost 234 constraints once every lane is a variable: 7 full
rounds at 9 and 57 partial rounds at 3. -/
theorem laterRoundsCost :
    ((List.range (params.rounds - 1)).map fun i => fullCost params (i + 1)).sum = 234 := by
  simp only [fullCost, powCost_alpha, Params.isFull, Params.rounds, params_fullRounds,
    params_partialRounds]
  decide

theorem emits_permuteVar_params {st : Vector FieldVar 3} (h : SomeVar st) :
    Emits (permuteVar params st) (roundCost params 0 st + 234) AllVar := by
  have hcost := emits_permuteVar params (by rw [params_alpha]; decide) isFull_zero
    (by simp [Params.rounds, params_fullRounds, params_partialRounds]) h
  rwa [laterRoundsCost] at hcost

theorem roundCost_zero (st : Vector FieldVar 3) :
    roundCost params 0 st = laneCost 3 (st.getD 0 (.const 0)) + laneCost 3 (st.getD 1 (.const 0)) +
      laneCost 3 (st.getD 2 (.const 0)) := by
  rw [roundCost, if_pos isFull_zero, powCost_alpha]

/-! ### Absorbing and squeezing -/

theorem emits_absorb_room (p : Params) {sp : SpongeVar} (h : sp.next ≠ rate) (x : FieldVar) :
    Emits (sp.absorb p x) 0 (· = sp.addLane x) := by
  rw [SpongeVar.absorb_eq, ← Nat.add_zero 0]
  unfold SpongeVar.prepare
  rw [if_neg h]
  exact Emits.bind (emits_pure rfl) fun r hr => emits_pure (by rw [hr])

theorem emits_prepare_full {sp : SpongeVar} (h : sp.next = rate) (hvar : SomeVar sp.state) :
    Emits (sp.prepare params) (roundCost params 0 sp.state + 234) fun r => AllVar r.state := by
  unfold SpongeVar.prepare
  rw [if_pos h, ← Nat.add_zero (_ + 234)]
  exact Emits.bind (emits_permuteVar_params hvar) fun st hst => emits_pure hst

/-- Absorbing into a full rate permutes first, which leaves every lane a variable. -/
theorem emits_absorb_full {sp : SpongeVar} (h : sp.next = rate) (hvar : SomeVar sp.state)
    (x : FieldVar) :
    Emits (sp.absorb params x) (roundCost params 0 sp.state + 234) fun r => AllVar r.state := by
  rw [SpongeVar.absorb_eq, ← Nat.add_zero (_ + 234)]
  exact Emits.bind (emits_prepare_full h hvar) fun r hr => emits_pure (hr.addLane x)

/-- A squeeze permutes lanes that are all variables: 243 constraints. -/
theorem emits_squeeze {sp : SpongeVar} (h : AllVar sp.state) :
    Emits (sp.squeeze params) 243 (·.isConst = false) := by
  unfold SpongeVar.squeeze
  have hcost : roundCost params 0 sp.state + 234 + 0 = 243 := by
    rw [roundCost_of_allVar params 0 h, fullCost, if_pos isFull_zero, powCost_alpha]
  refine Emits.cast (Emits.bind (emits_permuteVar_params h.someVar) fun st hst =>
    emits_pure ?_) hcost
  rw [getD_eq_getElem st (by decide : capacity < 3)]
  exact hst capacity (by decide)

/-- Absorbing a leaf's three elements: the tag and the zero lanes are constants, so the
permutation before the third element, on lanes of which only the value's is a variable, costs
237 constraints. -/
theorem emits_absorbAll_leaf (c : Fr) {x : FieldVar} (hx : x.isConst = false) (y : FieldVar) :
    Emits ([.const c, x, y].foldlM (SpongeVar.absorb params) SpongeVar.empty) 237
      fun r => AllVar r.state := by
  -- the lanes once the tag and the value are in: constant, constant, variable
  have hlanes : ∀ k (hk : k < 3),
      ((SpongeVar.empty.addLane (.const c)).addLane x).state[k].isConst = decide (k ≠ 2) := by
    intro k hk
    obtain _ | _ | _ | k := k
    · simp [SpongeVar.getElem_addLane, capacity]
    · simp [SpongeVar.getElem_addLane, capacity]
    · simp [SpongeVar.getElem_addLane, capacity, hx]
    · omega
  have hvar : SomeVar ((SpongeVar.empty.addLane (.const c)).addLane x).state :=
    ⟨2, by decide, by rw [hlanes 2 (by decide)]; decide⟩
  have hcost :
      roundCost params 0 ((SpongeVar.empty.addLane (.const c)).addLane x).state + 234 = 237 := by
    rw [roundCost_zero, laneCost, laneCost, laneCost, getD_eq_getElem _ (by decide : 0 < 3),
      getD_eq_getElem _ (by decide : 1 < 3), getD_eq_getElem _ (by decide : 2 < 3),
      hlanes 0 (by decide), hlanes 1 (by decide), hlanes 2 (by decide)]
    decide
  simp only [List.foldlM_cons, List.foldlM_nil]
  rw [show 237 = 0 + (0 + (237 + 0)) from rfl]
  refine Emits.bind (emits_absorb_room params (by decide) _) fun s₁ h₁ => ?_
  subst h₁
  refine Emits.bind (emits_absorb_room params (by simp [rate]) _) fun s₂ h₂ => ?_
  subst h₂
  rw [← hcost]
  exact Emits.bind (emits_absorb_full (by simp [rate]) hvar y) fun s₃ h₃ => emits_pure h₃

/-- **A leaf costs 480 constraints**: 237 to absorb, 243 to squeeze. -/
theorem emits_hashVar_leaf (c : Fr) {x : FieldVar} (hx : x.isConst = false) (y : FieldVar) :
    Emits (hashVar params [.const c, x, y]) 480 (·.isConst = false) :=
  Emits.bind (emits_absorbAll_leaf c hx y) fun _ hsp => emits_squeeze hsp

/-- Absorbing a node's three variables: the permutation before the third, on lanes of which the
first two elements' are variables, costs 240 constraints. -/
theorem emits_absorbAll_node {x y : FieldVar} (hx : x.isConst = false) (hy : y.isConst = false)
    (z : FieldVar) :
    Emits ([x, y, z].foldlM (SpongeVar.absorb params) SpongeVar.empty) 240
      fun r => AllVar r.state := by
  -- the lanes once two elements are in: constant, variable, variable
  have hlanes : ∀ k (hk : k < 3),
      ((SpongeVar.empty.addLane x).addLane y).state[k].isConst = decide (k = 0) := by
    intro k hk
    obtain _ | _ | _ | k := k
    · simp [SpongeVar.getElem_addLane, capacity]
    · simp [SpongeVar.getElem_addLane, capacity, hx]
    · simp [SpongeVar.getElem_addLane, capacity, hy]
    · omega
  have hvar : SomeVar ((SpongeVar.empty.addLane x).addLane y).state :=
    ⟨2, by decide, by rw [hlanes 2 (by decide)]; decide⟩
  have hcost : roundCost params 0 ((SpongeVar.empty.addLane x).addLane y).state + 234 = 240 := by
    rw [roundCost_zero, laneCost, laneCost, laneCost, getD_eq_getElem _ (by decide : 0 < 3),
      getD_eq_getElem _ (by decide : 1 < 3), getD_eq_getElem _ (by decide : 2 < 3),
      hlanes 0 (by decide), hlanes 1 (by decide), hlanes 2 (by decide)]
    decide
  simp only [List.foldlM_cons, List.foldlM_nil]
  rw [show 240 = 0 + (0 + (240 + 0)) from rfl]
  refine Emits.bind (emits_absorb_room params (by decide) _) fun s₁ h₁ => ?_
  subst h₁
  refine Emits.bind (emits_absorb_room params (by simp [rate]) _) fun s₂ h₂ => ?_
  subst h₂
  rw [← hcost]
  exact Emits.bind (emits_absorb_full (by simp [rate]) hvar z) fun s₃ h₃ => emits_pure h₃

/-- **A node costs 483 constraints**: 240 to absorb, 243 to squeeze. -/
theorem emits_hashVar_node {x y : FieldVar} (hx : x.isConst = false) (hy : y.isConst = false)
    (z : FieldVar) : Emits (hashVar params [x, y, z]) 483 (·.isConst = false) :=
  Emits.bind (emits_absorbAll_node hx hy z) fun _ hsp => emits_squeeze hsp

end Circuit

end ZkPolicy
