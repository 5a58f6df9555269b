import ZkPolicy.Proofs.Circuit.Gates

/-!
# Absorbing a list in one call

The sponge can also absorb a whole list in one call (`Poseidon.Sponge.absorbSlice`): the elements
go into the rate lanes from the next free one, the state is permuted each time the rate fills
with elements still to come, and a rate that the call fills exactly is left for the next call or
the squeeze to permute. The hash absorbs its inputs one at a time. This module shows that the two
agree, natively and in a circuit.

* `Sponge.absorbSlice_append`: one call is incremental, from every sponge.
* `Sponge.absorbSlice_singleton`: from a sponge whose next lane is within the rate, a call on one
  element is one `absorb` step, which keeps the next lane within the rate.
* `Sponge.absorbSlice_eq_absorbAll`: hence, by induction on the list, one call is the
  element-wise fold, and `hashWith_eq_absorbSlice` reads the hash as one call and a squeeze.
* The same for variables, where the invariant on the next lane is carried across the permutation's
  run by `SpongeVar.prepare_bind_congr`; `hashVar_eq_absorbSlice` reads the in-circuit hash as the
  one-call gadget.
* `poseidon_one_call_agreement` collects these with what they give on an honest witness: the
  gadget's output records the native hash, a leaf's the native attribute leaf, and the commitment
  checked against a public root holding the attributes' commitment emits constraints that hold.
-/

namespace ZkPolicy

namespace Poseidon

namespace Sponge

variable (p : Params)

/-! ### The loop of one call -/

theorem addLanes_append (st : State) (lane : Nat) (xs ys : List Fr) :
    addLanes st lane (xs ++ ys) = addLanes (addLanes st lane xs) (lane + xs.length) ys := by
  induction xs generalizing st lane with
  | nil => rfl
  | cons x xs ih =>
    rw [List.cons_append, addLanes, addLanes, ih, List.length_cons, Nat.add_right_comm,
      Nat.add_assoc]

theorem absorbFrom_of_le {st : State} {lane : Nat} {xs : List Fr} (h : lane + xs.length ≤ rate) :
    absorbFrom p st lane xs = ⟨addLanes st lane xs, lane + xs.length⟩ := by
  rw [absorbFrom, if_pos h]

theorem absorbFrom_of_lt {st : State} {lane : Nat} {xs : List Fr} (h : rate < lane + xs.length) :
    absorbFrom p st lane xs =
      absorbFrom p (p.permute (addLanes st lane (xs.take (rate - lane)))) 0
        (xs.drop (rate - lane)) := by
  rw [absorbFrom, if_neg (Nat.not_le.2 h)]

/-- A call on a nonempty list makes room as one `absorb` step does, then runs the loop. -/
theorem absorbSlice_of_ne_nil (sp : Sponge) {xs : List Fr} (h : xs ≠ []) :
    sp.absorbSlice p xs = absorbFrom p (sp.prepare p).state (sp.prepare p).next xs := by
  unfold absorbSlice prepare
  rw [if_neg (by simpa using h)]
  split <;> rfl

/-- From a lane within the rate, a call is the loop from that lane. -/
theorem absorbSlice_mk {st : State} {lane : Nat} (h : lane ≤ rate) (xs : List Fr) :
    absorbSlice p ⟨st, lane⟩ xs = absorbFrom p st lane xs := by
  cases xs with
  | nil => rw [absorbFrom_of_le p (by simpa using h)]; rfl
  | cons x xs =>
    rw [absorbSlice_of_ne_nil p _ (List.cons_ne_nil x xs)]
    unfold prepare
    split
    · -- at a full rate the loop permutes with nothing added and starts over
      rename_i hfull
      simp only at hfull
      subst hfull
      rw [absorbFrom_of_lt p (show rate < rate + (x :: xs).length by simp), Nat.sub_self,
        List.take_zero, List.drop_zero, addLanes]
    · rfl

theorem absorbFrom_append_of_le {st : State} {lane : Nat} {xs : List Fr}
    (h : lane + xs.length ≤ rate) (ys : List Fr) :
    absorbFrom p st lane (xs ++ ys) = absorbFrom p (addLanes st lane xs) (lane + xs.length) ys := by
  by_cases hfit : lane + xs.length + ys.length ≤ rate
  · rw [absorbFrom_of_le p (show lane + (xs ++ ys).length ≤ rate by simpa [Nat.add_assoc] using hfit),
      absorbFrom_of_le p hfit, addLanes_append, List.length_append, Nat.add_assoc]
  · -- the rate fills inside `ys`: `xs` goes in whole, then the part of `ys` that fits
    have hxs : xs.length ≤ rate - lane := by omega
    rw [absorbFrom_of_lt p (show rate < lane + (xs ++ ys).length by simp; omega),
      absorbFrom_of_lt p (Nat.lt_of_not_le hfit), List.take_append, List.drop_append,
      List.take_of_length_le hxs, List.drop_eq_nil_of_le hxs, List.nil_append, addLanes_append,
      Nat.sub_sub]

/-- The loop on `xs ++ ys` is the loop on `xs`, then a call on `ys`: a rate that `xs` fills
exactly is permuted by that call. -/
theorem absorbFrom_append (st : State) (lane : Nat) (xs ys : List Fr) :
    absorbFrom p st lane (xs ++ ys) = (absorbFrom p st lane xs).absorbSlice p ys := by
  fun_induction absorbFrom p st lane xs with
  | case1 st lane xs hfit =>
    -- `xs` fits: the call on `ys` goes on from the lane where the loop stopped
    rw [absorbFrom_append_of_le p hfit, absorbSlice_mk p hfit]
  | case2 st lane xs hover ih =>
    -- `xs` overflows: both loops fill the rate from `xs` alone and permute alike
    have hk : rate - lane ≤ xs.length := by omega
    rw [absorbFrom_of_lt p (show rate < lane + (xs ++ ys).length by simp; omega),
      List.take_append_of_le_length hk, List.drop_append_of_le_length hk, ih]

/-- **One call is incremental**, from every sponge: absorbing `xs ++ ys` is absorbing `xs`,
then `ys`. -/
theorem absorbSlice_append (sp : Sponge) (xs ys : List Fr) :
    sp.absorbSlice p (xs ++ ys) = (sp.absorbSlice p xs).absorbSlice p ys := by
  cases xs with
  | nil => simp [absorbSlice]
  | cons x xs =>
    rw [absorbSlice_of_ne_nil p sp (List.cons_ne_nil x xs),
      absorbSlice_of_ne_nil p sp (List.append_ne_nil_of_left_ne_nil (List.cons_ne_nil x xs) ys),
      absorbFrom_append]

/-! ### One call against one element at a time -/

theorem next_prepare_lt {sp : Sponge} (h : sp.next ≤ rate) : (sp.prepare p).next < rate := by
  unfold prepare
  split
  · simp [rate]
  · omega

theorem next_absorb_le {sp : Sponge} (h : sp.next ≤ rate) (x : Fr) : (sp.absorb p x).next ≤ rate := by
  rw [absorb_eq]
  exact next_prepare_lt p h

theorem absorbSlice_singleton {sp : Sponge} (h : sp.next ≤ rate) (x : Fr) :
    sp.absorbSlice p [x] = sp.absorb p x := by
  rw [absorbSlice_of_ne_nil p sp (List.cons_ne_nil x []), absorb_eq,
    absorbFrom_of_le p (next_prepare_lt p h)]
  rfl

/-- **One call is the element-wise fold** from every sponge whose next lane is within the rate.
The induction is on the list; the invariant is that the next lane stays within the rate. -/
theorem absorbSlice_eq_absorbAll {sp : Sponge} (h : sp.next ≤ rate) (xs : List Fr) :
    sp.absorbSlice p xs = sp.absorbAll p xs := by
  induction xs generalizing sp with
  | nil => simp [absorbSlice, absorbAll]
  | cons x xs ih =>
    calc sp.absorbSlice p (x :: xs) = (sp.absorbSlice p [x]).absorbSlice p xs :=
          absorbSlice_append p sp [x] xs
      _ = (sp.absorb p x).absorbSlice p xs := by rw [absorbSlice_singleton p h]
      _ = (sp.absorb p x).absorbAll p xs := ih (next_absorb_le p h x)
      _ = sp.absorbAll p (x :: xs) := rfl

end Sponge

theorem hashWith_eq_absorbSlice (p : Params) (xs : List Fr) :
    hashWith p xs = (Sponge.empty.absorbSlice p xs).squeeze p := by
  rw [hashWith, Sponge.absorbSlice_eq_absorbAll p (Nat.zero_le _)]

end Poseidon

namespace Circuit

open Poseidon

namespace SpongeVar

variable (p : Params)

/-! ### One call on variables -/

theorem addLanes_append (st : Vector FieldVar 3) (lane : Nat) (xs ys : List FieldVar) :
    addLanes st lane (xs ++ ys) = addLanes (addLanes st lane xs) (lane + xs.length) ys := by
  induction xs generalizing st lane with
  | nil => rfl
  | cons x xs ih =>
    rw [List.cons_append, addLanes, addLanes, ih, List.length_cons, Nat.add_right_comm,
      Nat.add_assoc]

theorem absorbFrom_of_le {st : Vector FieldVar 3} {lane : Nat} {xs : List FieldVar}
    (h : lane + xs.length ≤ rate) :
    absorbFrom p st lane xs = pure ⟨addLanes st lane xs, lane + xs.length⟩ := by
  rw [absorbFrom, if_pos h]

theorem absorbFrom_of_lt {st : Vector FieldVar 3} {lane : Nat} {xs : List FieldVar}
    (h : rate < lane + xs.length) :
    absorbFrom p st lane xs = permuteVar p (addLanes st lane (xs.take (rate - lane))) >>=
      fun st => absorbFrom p st 0 (xs.drop (rate - lane)) := by
  rw [absorbFrom, if_neg (Nat.not_le.2 h)]

theorem absorbSlice_of_ne_nil (sp : SpongeVar) {xs : List FieldVar} (h : xs ≠ []) :
    sp.absorbSlice p xs = sp.prepare p >>= fun sp => absorbFrom p sp.state sp.next xs := by
  unfold absorbSlice prepare
  rw [if_neg (by simpa using h)]
  split
  · simp only [bind_assoc, pure_bind]
  · rw [pure_bind]

theorem absorbSlice_mk {st : Vector FieldVar 3} {lane : Nat} (h : lane ≤ rate)
    (xs : List FieldVar) : absorbSlice p ⟨st, lane⟩ xs = absorbFrom p st lane xs := by
  cases xs with
  | nil => rw [absorbFrom_of_le p (by simpa using h)]; rfl
  | cons x xs =>
    rw [absorbSlice_of_ne_nil p _ (List.cons_ne_nil x xs)]
    unfold prepare
    split
    · -- at a full rate the loop permutes with nothing added and starts over
      rename_i hfull
      simp only at hfull
      subst hfull
      rw [absorbFrom_of_lt p (show rate < rate + (x :: xs).length by simp), Nat.sub_self,
        List.take_zero, List.drop_zero, addLanes, bind_assoc]
      simp only [pure_bind]
    · rw [pure_bind]

theorem absorbFrom_append_of_le {st : Vector FieldVar 3} {lane : Nat} {xs : List FieldVar}
    (h : lane + xs.length ≤ rate) (ys : List FieldVar) :
    absorbFrom p st lane (xs ++ ys) = absorbFrom p (addLanes st lane xs) (lane + xs.length) ys := by
  by_cases hfit : lane + xs.length + ys.length ≤ rate
  · rw [absorbFrom_of_le p (show lane + (xs ++ ys).length ≤ rate by simpa [Nat.add_assoc] using hfit),
      absorbFrom_of_le p hfit, addLanes_append, List.length_append, Nat.add_assoc]
  · -- the rate fills inside `ys`: `xs` goes in whole, then the part of `ys` that fits
    have hxs : xs.length ≤ rate - lane := by omega
    rw [absorbFrom_of_lt p (show rate < lane + (xs ++ ys).length by simp; omega),
      absorbFrom_of_lt p (Nat.lt_of_not_le hfit), List.take_append, List.drop_append,
      List.take_of_length_le hxs, List.drop_eq_nil_of_le hxs, List.nil_append, addLanes_append,
      Nat.sub_sub]

theorem absorbFrom_append (st : Vector FieldVar 3) (lane : Nat) (xs ys : List FieldVar) :
    absorbFrom p st lane (xs ++ ys) = absorbFrom p st lane xs >>= fun sp => sp.absorbSlice p ys := by
  fun_induction absorbFrom p st lane xs with
  | case1 st lane xs hfit =>
    rw [absorbFrom_append_of_le p hfit, pure_bind, absorbSlice_mk p hfit]
  | case2 st lane xs hover ih =>
    -- the induction hypothesis holds for every state the permutation may return
    have hk : rate - lane ≤ xs.length := by omega
    rw [absorbFrom_of_lt p (show rate < lane + (xs ++ ys).length by simp; omega),
      List.take_append_of_le_length hk, List.drop_append_of_le_length hk, bind_assoc]
    exact bind_congr ih

/-- **One call on variables is incremental**, from every sponge. -/
theorem absorbSlice_append (sp : SpongeVar) (xs ys : List FieldVar) :
    sp.absorbSlice p (xs ++ ys) = sp.absorbSlice p xs >>= fun sp => sp.absorbSlice p ys := by
  cases xs with
  | nil => simp [absorbSlice]
  | cons x xs =>
    rw [absorbSlice_of_ne_nil p sp (List.cons_ne_nil x xs),
      absorbSlice_of_ne_nil p sp (List.append_ne_nil_of_left_ne_nil (List.cons_ne_nil x xs) ys),
      bind_assoc]
    exact bind_congr fun sp => absorbFrom_append p _ _ _ ys

/-- Making room leaves the next lane inside the rate whatever state the permutation returns, so
two continuations that agree on such sponges agree after it. -/
theorem prepare_bind_congr {β : Type} {sp : SpongeVar} (h : sp.next ≤ rate)
    {f g : SpongeVar → Build β} (hfg : ∀ sp', sp'.next < rate → f sp' = g sp') :
    sp.prepare p >>= f = sp.prepare p >>= g := by
  unfold prepare
  split
  · simp only [bind_assoc, pure_bind]
    exact bind_congr fun st => hfg ⟨st, 0⟩ (by simp [rate])
  · rw [pure_bind, pure_bind]
    exact hfg sp (by omega)

theorem absorb_bind_congr {β : Type} {sp : SpongeVar} (h : sp.next ≤ rate) (x : FieldVar)
    {f g : SpongeVar → Build β} (hfg : ∀ sp', sp'.next ≤ rate → f sp' = g sp') :
    sp.absorb p x >>= f = sp.absorb p x >>= g := by
  simp only [absorb_eq, bind_assoc, pure_bind]
  exact prepare_bind_congr p h fun sp' h' => hfg _ h'

theorem absorbSlice_singleton {sp : SpongeVar} (h : sp.next ≤ rate) (x : FieldVar) :
    sp.absorbSlice p [x] = sp.absorb p x := by
  rw [absorbSlice_of_ne_nil p sp (List.cons_ne_nil x []), absorb_eq]
  exact prepare_bind_congr p h fun sp' h' => by rw [absorbFrom_of_le p h']; rfl

/-- **One call on variables is the element-wise fold** from every sponge whose next lane is
within the rate, the invariant of the induction on the list. -/
theorem foldlM_absorb_eq_absorbSlice (xs : List FieldVar) :
    ∀ {sp : SpongeVar}, sp.next ≤ rate → xs.foldlM (absorb p) sp = sp.absorbSlice p xs := by
  induction xs with
  | nil => intro sp _; simp [absorbSlice]
  | cons x xs ih =>
    intro sp h
    calc (x :: xs).foldlM (absorb p) sp = sp.absorb p x >>= fun sp => xs.foldlM (absorb p) sp :=
          List.foldlM_cons ..
      _ = sp.absorb p x >>= fun sp => sp.absorbSlice p xs := absorb_bind_congr p h x fun _ h' => ih h'
      _ = sp.absorbSlice p [x] >>= fun sp => sp.absorbSlice p xs := by rw [absorbSlice_singleton p h]
      _ = sp.absorbSlice p (x :: xs) := (absorbSlice_append p sp [x] xs).symm

end SpongeVar

/-- The in-circuit hash is the one-call gadget: one call on the inputs, then a squeeze. -/
theorem hashVar_eq_absorbSlice (p : Params) (xs : List FieldVar) :
    hashVar p xs = SpongeVar.empty.absorbSlice p xs >>= fun sp => sp.squeeze p := by
  rw [hashVar, SpongeVar.foldlM_absorb_eq_absorbSlice p xs (Nat.zero_le _)]

/-! ### The gadget on an honest witness -/

/-- Six variables honestly holding the three attributes and their salts. -/
structure HoldsAttributes (asg : Assignment) (a : Attributes) (s : Salts)
    (age gender nationality saltAge saltGender saltNationality : FieldVar) : Prop where
  honestAge : age.Honest asg ∧ age.value = Fr.ofWord a.age
  honestGender : gender.Honest asg ∧ gender.value = Fr.ofWord a.gender
  honestNationality : nationality.Honest asg ∧ nationality.value = Fr.ofWord a.nationality
  honestSaltAge : saltAge.Honest asg ∧ saltAge.value = s.age
  honestSaltGender : saltGender.Honest asg ∧ saltGender.value = s.gender
  honestSaltNationality : saltNationality.Honest asg ∧ saltNationality.value = s.nationality

section Honest

variable {asg : Assignment}

theorem absorbSlice_squeeze_value (hone : asg Var.one = 1) (p : Params) {xs : List FieldVar}
    (hxs : ∀ x ∈ xs, x.Honest asg) :
    Complete asg (SpongeVar.empty.absorbSlice p xs >>= fun sp => sp.squeeze p) fun r =>
      r.Honest asg ∧ r.value = hashWith p (xs.map FieldVar.value) := by
  rw [← hashVar_eq_absorbSlice]
  exact hashVar_value hone p hxs

theorem absorbSlice_squeeze_attributeLeaf (hone : asg Var.one = 1) (tag word : UInt64)
    {value salt : FieldVar} (hv : value.Honest asg) (hvw : value.value = Fr.ofWord word)
    (hs : salt.Honest asg) :
    Complete asg (SpongeVar.empty.absorbSlice params [.const (Fr.ofWord tag), value, salt] >>=
      fun sp => sp.squeeze params) fun r =>
        r.Honest asg ∧ r.value = attributeLeaf tag word salt.value := by
  -- the gadget is the leaf's in-circuit hash
  rw [← hashVar_eq_absorbSlice]
  refine (leafVar_value hone tag hv hs).mono fun r hr => ⟨hr.1, ?_⟩
  rw [hr.2, hvw]
  rfl

/-- On an honest witness, the commitment checked against a public root that holds the
attributes' commitment emits constraints that hold. -/
theorem commitmentVar_enforceEq_complete (hone : asg Var.one = 1) {a : Attributes} {s : Salts}
    {age gender nationality saltAge saltGender saltNationality root : FieldVar}
    (hw : HoldsAttributes asg a s age gender nationality saltAge saltGender saltNationality)
    (hroot : root.Honest asg) (hrc : root.isConst = false) (hrv : root.value = a.commitment s) :
    Complete asg (commitmentVar age gender nationality saltAge saltGender saltNationality >>=
      fun r => r.enforceEq root) fun _ => True := by
  obtain ⟨ha, hg, hn, hsa, hsg, hsn⟩ := hw
  refine Complete.bind (commitmentVar_value hone ha.1 hg.1 hn.1 hsa.1 hsg.1 hsn.1) fun r hr => ?_
  cases root with
  | const c => cases hrc
  | var l v =>
    intro t _
    refine ⟨(FieldVar.holdsBetween_enforceEq_iff hone r l v t).2 ?_, trivial⟩
    -- both sides of the constraint evaluate to the commitment
    calc r.lc.eval asg = r.value := hr.1
      _ = a.commitment s := by rw [hr.2, ha.2, hg.2, hn.2, hsa.2, hsg.2, hsn.2]; rfl
      _ = l.eval asg := hrv.symm.trans hroot.symm

end Honest

/-- **Native and in-circuit Poseidon agree with one absorbing call.** The native hash, which
absorbs element by element, is one call on the whole list and a squeeze, for lists of every
length; one call is incremental from every sponge, a rate filled exactly being permuted by the
next call; the in-circuit hash is the one-call gadget. On an honest assignment the gadget's
constraints hold and its output records the native hash, a leaf's output the native attribute
leaf; and the commitment of an honest witness, checked against a public root holding the
attributes' commitment, emits constraints that hold. -/
theorem poseidon_one_call_agreement (p : Params) :
    (∀ xs, hashWith p xs = (Sponge.empty.absorbSlice p xs).squeeze p) ∧
    (∀ (sp : Sponge) xs ys,
      sp.absorbSlice p (xs ++ ys) = (sp.absorbSlice p xs).absorbSlice p ys) ∧
    (∀ xs, hashVar p xs = SpongeVar.empty.absorbSlice p xs >>= fun sp => sp.squeeze p) ∧
    ∀ asg : Assignment, asg Var.one = 1 →
      (∀ xs : List FieldVar, (∀ x ∈ xs, x.Honest asg) →
        Complete asg (SpongeVar.empty.absorbSlice p xs >>= fun sp => sp.squeeze p) fun r =>
          r.Honest asg ∧ r.value = hashWith p (xs.map FieldVar.value)) ∧
      (∀ (tag word : UInt64) (value salt : FieldVar), value.Honest asg →
        value.value = Fr.ofWord word → salt.Honest asg →
        Complete asg (SpongeVar.empty.absorbSlice params [.const (Fr.ofWord tag), value, salt] >>=
          fun sp => sp.squeeze params) fun r =>
            r.Honest asg ∧ r.value = attributeLeaf tag word salt.value) ∧
      ∀ (a : Attributes) (s : Salts) (age gender nationality saltAge saltGender saltNationality
          root : FieldVar),
        HoldsAttributes asg a s age gender nationality saltAge saltGender saltNationality →
        root.Honest asg → root.isConst = false → root.value = a.commitment s →
        Complete asg (commitmentVar age gender nationality saltAge saltGender saltNationality >>=
          fun r => r.enforceEq root) fun _ => True := by
  refine ⟨hashWith_eq_absorbSlice p, Sponge.absorbSlice_append p, hashVar_eq_absorbSlice p,
    fun asg hone => ⟨fun xs hxs => absorbSlice_squeeze_value hone p hxs, ?_, ?_⟩⟩
  · intro tag word value salt hv hvw hs
    exact absorbSlice_squeeze_attributeLeaf hone tag word hv hvw hs
  · intro a s age gender nationality saltAge saltGender saltNationality root hw hroot hrc hrv
    exact commitmentVar_enforceEq_complete hone hw hroot hrc hrv

end Circuit

end ZkPolicy
