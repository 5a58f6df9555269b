import ZkPolicy.Proofs.Circuit.Policy

/-!
# The circuit's shape does not depend on its inputs

A constraint system is its *shape* (how many instance and witness variables it has, and its
constraints) together with the values it records. The setup of a proof system reads the shape
only, so one setup serves every policy and holder exactly when every input of the policy circuit
yields the same shape. This module shows that it does.

* `System.SameShape s t`: `s` and `t` have as many instance and witness variables and the same
  constraints.
* `RunsAlike R m n`: started from systems of one shape, the builders `m` and `n` end in systems
  of one shape, allocate no instance variable, and return results related by `R`. It composes
  along `>>=` (`RunsAlike.bind`), over lists (`runsAlike_mapM`, `runsAlike_foldlM`), and holds of
  the primitives whatever the values they allocate.
* `FieldVar.Alike` and `BoolVar.Alike`: the same constant, or the same combination or variable
  with any value. Every gadget run on alike arguments, with any values, runs alike: no gadget
  branches on a value, only on which arguments are constants.
* `policySystem_shape`: the policy systems of any two policies, attributes, salts and roots
  have the same shape, and their instance variables are the constant one and the eleven public
  signals (`numInputs_policySystem`); every one has 2008 constraints
  (`numConstraints_policySystem`).
* `Groth16.setup_congr`: the setup reads only the shape. Hence the setup made from the default
  policy, attributes and salts is the setup of every policy system (`policySetup_eq_setup`), and
  its verifying key expects the eleven signals (`inputCount_policySetup`).
-/

namespace ZkPolicy

namespace Circuit

/-! ### Shapes of systems and builders that run alike -/

/-- Two systems of one shape: as many instance and witness variables, and the same constraints.
The values they record may differ. -/
structure System.SameShape (s t : System) : Prop where
  inputs : s.inputs.size = t.inputs.size
  witnesses : s.witnesses.size = t.witnesses.size
  constraints : s.constraints = t.constraints

section RunsAlike

variable {α β γ δ : Type}

/-- **Two builders run alike**: from systems of one shape, both end in systems of one shape,
neither allocates an instance variable, and their results are related by `R`. -/
def RunsAlike (R : α → β → Prop) (m : Build α) (n : Build β) : Prop :=
  ∀ s t, s.SameShape t → R (m.run s).1 (n.run t).1 ∧ (m.run s).2.SameShape (n.run t).2 ∧
    (m.run s).2.inputs = s.inputs ∧ (n.run t).2.inputs = t.inputs

variable {R : α → β → Prop} {S : γ → δ → Prop} {m : Build α} {n : Build β}

theorem RunsAlike.bind {f : α → Build γ} {g : β → Build δ} (hm : RunsAlike R m n)
    (hf : ∀ a b, R a b → RunsAlike S (f a) (g b)) : RunsAlike S (m >>= f) (n >>= g) := by
  intro s t hst
  obtain ⟨hr, hsh, hs, ht⟩ := hm s t hst
  obtain ⟨hr', hsh', hs', ht'⟩ := hf _ _ hr _ _ hsh
  rw [run_bind, run_bind]
  exact ⟨hr', hsh', hs'.trans hs, ht'.trans ht⟩

theorem runsAlike_pure {a : α} {b : β} (h : R a b) : RunsAlike R (pure a) (pure b) :=
  fun _ _ hst => ⟨h, hst, rfl, rfl⟩

/-- Two witnesses allocated from systems of one shape are the same variable, whatever their
values. -/
theorem runsAlike_newWitness (x y : Fr) : RunsAlike (· = ·) (newWitness x) (newWitness y) := by
  intro s t hst
  rw [run_newWitness, run_newWitness]
  refine ⟨by rw [hst.witnesses], ⟨hst.inputs, ?_, hst.constraints⟩, rfl, rfl⟩
  simp only [Array.size_push, hst.witnesses]

theorem runsAlike_enforce (a b c : LinComb) : RunsAlike (· = ·) (enforce a b c) (enforce a b c) := by
  intro s t hst
  rw [run_enforce, run_enforce]
  exact ⟨rfl, ⟨hst.inputs, hst.witnesses, by rw [hst.constraints]⟩, rfl, rfl⟩

theorem runsAlike_ite (c : Prop) [Decidable c] {m₁ m₂ : Build α} {n₁ n₂ : Build β}
    (h₁ : RunsAlike R m₁ n₁) (h₂ : RunsAlike R m₂ n₂) :
    RunsAlike R (if c then m₁ else m₂) (if c then n₁ else n₂) := by
  by_cases hc : c
  · simpa only [if_pos hc] using h₁
  · simpa only [if_neg hc] using h₂

/-- Related lists, run element by element with builders that run alike on related elements,
run alike, their results related position by position. -/
theorem runsAlike_mapM {P : γ → δ → Prop} {f : γ → Build α} {g : δ → Build β} {l₁ : List γ}
    {l₂ : List δ} (hl : List.Forall₂ P l₁ l₂) (hf : ∀ a b, P a b → RunsAlike R (f a) (g b)) :
    RunsAlike (List.Forall₂ R) (l₁.mapM f) (l₂.mapM g) := by
  induction hl with
  | nil => exact runsAlike_pure .nil
  | cons hab _ ih =>
    rw [List.mapM_cons, List.mapM_cons]
    exact (hf _ _ hab).bind fun a b hr => ih.bind fun _ _ hrs => runsAlike_pure (.cons hr hrs)

/-- A fold over related lists from related starts, with steps that run alike on related
accumulators and elements, runs alike. -/
theorem runsAlike_foldlM {P : γ → δ → Prop} {f : α → γ → Build α} {g : β → δ → Build β}
    {l₁ : List γ} {l₂ : List δ} (hl : List.Forall₂ P l₁ l₂)
    (hf : ∀ a b x y, R a b → P x y → RunsAlike R (f a x) (g b y)) :
    ∀ {i₁ : α} {i₂ : β}, R i₁ i₂ → RunsAlike R (l₁.foldlM f i₁) (l₂.foldlM g i₂) := by
  induction hl with
  | nil => exact fun h => runsAlike_pure h
  | cons hxy _ ih =>
    intro i₁ i₂ hi
    rw [List.foldlM_cons, List.foldlM_cons]
    exact (hf _ _ _ _ hi hxy).bind fun _ _ hr => ih hr

end RunsAlike

/-- Related lists with related defaults are related at every position. -/
theorem forall₂_getD_of_default {α β : Type} {R : α → β → Prop} {l₁ : List α} {l₂ : List β}
    (h : List.Forall₂ R l₁ l₂) {d₁ : α} {d₂ : β} (hd : R d₁ d₂) (i : Nat) :
    R (l₁.getD i d₁) (l₂.getD i d₂) := by
  by_cases hi : i < l₂.length
  · exact forall₂_getD h hi d₁ d₂
  · -- past the end of both lists, the defaults
    have hi₁ : l₁.length ≤ i := by rw [h.length_eq]; omega
    rw [List.getD_eq_default _ _ hi₁, List.getD_eq_default _ _ (by omega)]
    exact hd

/-! ### Booleans -/

namespace BoolVar

/-- Two booleans alike: the same constant, or the same variable, negated or not, whatever its
value. -/
inductive Alike : BoolVar → BoolVar → Prop
  | const (b : Bool) : Alike (.const b) (.const b)
  | pos (v : Var) (a b : Bool) : Alike (.pos v a) (.pos v b)
  | neg (v : Var) (a b : Bool) : Alike (.neg v a) (.neg v b)

theorem Alike.lc_eq {x y : BoolVar} (h : x.Alike y) : x.lc = y.lc := by
  cases h <;> rfl

theorem Alike.not {x y : BoolVar} (h : x.Alike y) : x.not.Alike y.not := by
  cases h
  · exact .const _
  · exact .neg _ _ _
  · exact .pos _ _ _

theorem runsAlike_alloc (a b : Bool) : RunsAlike Alike (alloc a) (alloc b) :=
  (runsAlike_newWitness _ _).bind fun v _ hv => hv ▸
    (runsAlike_enforce _ _ _).bind fun _ _ _ => runsAlike_pure (.pos v a b)

/-- A connective's result is a fresh variable, whatever the values it combines. -/
theorem runsAlike_connective (a b : Bool) (x y : LinComb) (c : LinComb → LinComb) :
    RunsAlike Alike (connective a x y c) (connective b x y c) :=
  (runsAlike_newWitness _ _).bind fun r _ hr => hr ▸
    (runsAlike_enforce _ _ _).bind fun _ _ _ => runsAlike_pure (.pos r a b)

/-- Conjunction branches on constants and polarities only. -/
theorem runsAlike_and {x x' y y' : BoolVar} (hx : x.Alike x') (hy : y.Alike y') :
    RunsAlike Alike (x.and y) (x'.and y') := by
  cases hx with
  | const b =>
    cases b
    · exact runsAlike_pure (Alike.const false)
    · cases hy with
      | const b => cases b <;> exact runsAlike_pure (Alike.const _)
      | pos w c c' => exact runsAlike_pure (Alike.pos w c c')
      | neg w c c' => exact runsAlike_pure (Alike.neg w c c')
  | pos v a a' =>
    cases hy with
    | const b =>
      cases b
      · exact runsAlike_pure (Alike.const false)
      · exact runsAlike_pure (Alike.pos v a a')
    | pos w c c' => exact runsAlike_connective _ _ _ _ _
    | neg w c c' => exact runsAlike_connective _ _ _ _ _
  | neg v a a' =>
    cases hy with
    | const b =>
      cases b
      · exact runsAlike_pure (Alike.const false)
      · exact runsAlike_pure (Alike.neg v a a')
    | pos w c c' => exact runsAlike_connective _ _ _ _ _
    | neg w c c' => exact runsAlike_connective _ _ _ _ _

/-- Disjunction branches on constants and polarities only. -/
theorem runsAlike_or {x x' y y' : BoolVar} (hx : x.Alike x') (hy : y.Alike y') :
    RunsAlike Alike (x.or y) (x'.or y') := by
  cases hx with
  | const b =>
    cases b
    · exact runsAlike_pure hy
    · cases hy with
      | const b => cases b <;> exact runsAlike_pure (Alike.const true)
      | pos => exact runsAlike_pure (Alike.const true)
      | neg => exact runsAlike_pure (Alike.const true)
  | pos v a a' =>
    cases hy with
    | const b =>
      cases b
      · exact runsAlike_pure (Alike.pos v a a')
      · exact runsAlike_pure (Alike.const true)
    | pos => exact runsAlike_connective _ _ _ _ _
    | neg w c c' =>
      exact (runsAlike_and (Alike.pos v a a').not (Alike.neg w c c').not).bind fun _ _ h =>
        runsAlike_pure h.not
  | neg v a a' =>
    cases hy with
    | const b =>
      cases b
      · exact runsAlike_pure (Alike.neg v a a')
      · exact runsAlike_pure (Alike.const true)
    | pos w c c' =>
      exact (runsAlike_and (Alike.neg v a a').not (Alike.pos w c c').not).bind fun _ _ h =>
        runsAlike_pure h.not
    | neg => exact (runsAlike_connective _ _ _ _ _).bind fun _ _ h => runsAlike_pure h.not

/-- Exclusive or branches on constants and polarities only. -/
theorem runsAlike_xor {x x' y y' : BoolVar} (hx : x.Alike x') (hy : y.Alike y') :
    RunsAlike Alike (x.xor y) (x'.xor y') := by
  cases hx with
  | const b =>
    cases b
    · exact runsAlike_pure hy
    · cases hy with
      | const b => cases b <;> exact runsAlike_pure (Alike.const _)
      | pos w c c' => exact runsAlike_pure (Alike.pos w c c').not
      | neg w c c' => exact runsAlike_pure (Alike.neg w c c').not
  | pos v a a' =>
    cases hy with
    | const b =>
      cases b
      · exact runsAlike_pure (Alike.pos v a a')
      · exact runsAlike_pure (Alike.pos v a a').not
    | pos => exact runsAlike_connective _ _ _ _ _
    | neg => exact (runsAlike_connective _ _ _ _ _).bind fun _ _ h => runsAlike_pure h.not
  | neg v a a' =>
    cases hy with
    | const b =>
      cases b
      · exact runsAlike_pure (Alike.neg v a a')
      · exact runsAlike_pure (Alike.neg v a a').not
    | pos => exact (runsAlike_connective _ _ _ _ _).bind fun _ _ h => runsAlike_pure h.not
    | neg => exact runsAlike_connective _ _ _ _ _

theorem runsAlike_anyOf {hits hits' : List BoolVar} (h : List.Forall₂ Alike hits hits') :
    RunsAlike Alike (anyOf hits) (anyOf hits') := by
  cases h with
  | nil => exact runsAlike_pure (Alike.const false)
  | cons hx hxs =>
    exact runsAlike_foldlM hxs (fun _ _ _ _ ha hb => runsAlike_or ha hb) hx

theorem runsAlike_enforceEq {x x' : BoolVar} (hx : x.Alike x') (b : Bool) :
    RunsAlike (· = ·) (x.enforceEq b) (x'.enforceEq b) := by
  unfold enforceEq
  rw [hx.lc_eq]
  exact runsAlike_enforce _ _ _

end BoolVar

/-! ### Field elements -/

namespace FieldVar

/-- Two field elements alike: the same constant, or the same combination whatever its value. -/
inductive Alike : FieldVar → FieldVar → Prop
  | const (c : Fr) : Alike (.const c) (.const c)
  | var (l : LinComb) (x y : Fr) : Alike (.var l x) (.var l y)

variable {x x' y y' : FieldVar}

theorem Alike.lc_eq (h : x.Alike x') : x.lc = x'.lc := by
  cases h <;> rfl

theorem Alike.add (hx : x.Alike x') (hy : y.Alike y') : (x.add y).Alike (x'.add y') := by
  cases hx <;> cases hy
  · exact .const _
  all_goals exact .var _ _ _

theorem Alike.sub (hx : x.Alike x') (hy : y.Alike y') : (x.sub y).Alike (x'.sub y') := by
  cases hx <;> cases hy
  · exact .const _
  all_goals exact .var _ _ _

theorem Alike.scale (hx : x.Alike x') (c : Fr) : (x.scale c).Alike (x'.scale c) := by
  cases hx
  · exact .const _
  · exact .var _ _ _

theorem Alike.ofBool {b b' : BoolVar} (h : b.Alike b') : (ofBool b).Alike (ofBool b') := by
  cases h
  · exact .const _
  all_goals exact .var _ _ _

/-- Alike bits that are all constants are the same bits. -/
theorem eq_of_forall₂_alike {bits bits' : List BoolVar} (h : List.Forall₂ BoolVar.Alike bits bits')
    (hc : bits.all BoolVar.isConst = true) : bits = bits' := by
  induction h with
  | nil => rfl
  | cons hb _ ih =>
    simp only [List.all_cons, Bool.and_eq_true] at hc
    cases hb with
    | const b => rw [ih hc.2]
    | pos => cases hc.1
    | neg => cases hc.1

/-- Packing alike bits from one accumulator gives one combination. -/
theorem foldl_packStep_alike {bits bits' : List BoolVar} (h : List.Forall₂ BoolVar.Alike bits bits') :
    ∀ {acc acc' : LinComb × Fr × Fr}, acc.1 = acc'.1 → acc.2.2 = acc'.2.2 →
      (bits.foldl packStep acc).1 = (bits'.foldl packStep acc').1 := by
  induction h with
  | nil => exact fun h₁ _ => h₁
  | cons hb _ ih =>
    intro acc acc' h₁ h₂
    apply ih
    · simp only [packStep, h₁, h₂, hb.lc_eq]
    · simp only [packStep, h₂]

theorem Alike.ofBitsLE {bits bits' : List BoolVar} (h : List.Forall₂ BoolVar.Alike bits bits') :
    (ofBitsLE bits).Alike (ofBitsLE bits') := by
  rw [ofBitsLE_eq, ofBitsLE_eq]
  by_cases hc : bits.all BoolVar.isConst = true
  · -- constant bits are the same bits
    obtain rfl := eq_of_forall₂_alike h hc
    rw [if_pos hc]
    exact .const _
  · have hc' : bits'.all BoolVar.isConst = false := by
      rw [← eq_false_of_ne_true hc]
      -- alike bits agree on which are constants
      clear hc
      induction h with
      | nil => rfl
      | cons hb _ ih => cases hb <;> simp [BoolVar.isConst, ih]
    rw [if_neg hc, hc']
    rw [foldl_packStep_alike h rfl rfl]
    exact .var _ _ _

theorem runsAlike_witness (a b : Fr) : RunsAlike Alike (witness a) (witness b) :=
  (runsAlike_newWitness _ _).bind fun _ _ hv => hv ▸ runsAlike_pure (.var _ _ _)

theorem runsAlike_mul (hx : x.Alike x') (hy : y.Alike y') : RunsAlike Alike (x.mul y) (x'.mul y') := by
  cases hx with
  | const a => exact runsAlike_pure (hy.scale a)
  | var l u u' =>
    cases hy with
    | const b => exact runsAlike_pure ((Alike.var l u u').scale b)
    | var =>
      exact (runsAlike_newWitness _ _).bind fun r _ hr => hr ▸
        (runsAlike_enforce _ _ _).bind fun _ _ _ => runsAlike_pure (.var _ _ _)

theorem runsAlike_square (hx : x.Alike x') : RunsAlike Alike x.square x'.square := by
  cases hx with
  | const a => exact runsAlike_pure (.const _)
  | var =>
    exact (runsAlike_newWitness _ _).bind fun r _ hr => hr ▸
      (runsAlike_enforce _ _ _).bind fun _ _ _ => runsAlike_pure (.var _ _ _)

theorem runsAlike_powStep (hx : x.Alike x') {acc acc' : FieldVar} (hacc : acc.Alike acc')
    (b : Bool) : RunsAlike Alike (powStep x acc b) (powStep x' acc' b) :=
  (runsAlike_square hacc).bind fun _ _ h => runsAlike_ite _ (runsAlike_mul h hx) (runsAlike_pure h)

/-- A power runs over the bits of its exponent, the same for both. -/
theorem runsAlike_pow (hx : x.Alike x') (e : Nat) : RunsAlike Alike (x.pow e) (x'.pow e) := by
  rw [pow_eq_foldlM, pow_eq_foldlM]
  exact runsAlike_foldlM (List.forall₂_same.2 fun _ _ => rfl)
    (fun _ _ b _ hacc hb => hb ▸ runsAlike_powStep hx hacc b) (.const 1)

theorem runsAlike_enforceEq (hx : x.Alike x') (hy : y.Alike y') :
    RunsAlike (· = ·) (x.enforceEq y) (x'.enforceEq y') := by
  cases hx <;> cases hy
  · exact runsAlike_pure rfl
  all_goals exact runsAlike_enforce _ _ _

/-- A nonzero test allocates its bit and multiplier and emits its constraints whatever the
difference's value. -/
theorem runsAlike_isNonzero (δ : LinComb) (d d' : Fr) :
    RunsAlike BoolVar.Alike (isNonzero δ d) (isNonzero δ d') :=
  (BoolVar.runsAlike_alloc _ _).bind fun _ _ hb =>
    (runsAlike_newWitness _ _).bind fun m _ hm => hm ▸ by
      rw [hb.lc_eq, hb.not.lc_eq]
      exact (runsAlike_enforce _ _ _).bind fun _ _ _ =>
        (runsAlike_enforce _ _ _).bind fun _ _ _ => runsAlike_pure hb

theorem runsAlike_isEq (hx : x.Alike x') (hy : y.Alike y') :
    RunsAlike BoolVar.Alike (x.isEq y) (x'.isEq y') := by
  cases hx <;> cases hy
  · exact runsAlike_pure (BoolVar.Alike.const _)
  all_goals exact (runsAlike_isNonzero _ _ _).bind fun _ _ h => runsAlike_pure h.not

theorem runsAlike_isNeq (hx : x.Alike x') (hy : y.Alike y') :
    RunsAlike BoolVar.Alike (x.isNeq y) (x'.isNeq y') :=
  (runsAlike_isEq hx hy).bind fun _ _ h => runsAlike_pure h.not

end FieldVar

/-! ### Poseidon -/

section Sponge

open Poseidon FieldVar

variable (p : Params)

/-- Two states alike lane by lane. -/
def StateAlike (st st' : Vector FieldVar 3) : Prop := ∀ k (hk : k < 3), st[k].Alike st'[k]

variable {st st' : Vector FieldVar 3}

theorem StateAlike.addArkVar (h : StateAlike st st') (i : Nat) :
    StateAlike (addArkVar p i st) (addArkVar p i st') := by
  intro k hk
  simpa [Circuit.addArkVar] using (h k hk).add (.const _)

/-- Mixing sums the same multiples of alike lanes. -/
theorem StateAlike.mixVar (h : StateAlike st st') : StateAlike (mixVar p st) (mixVar p st') := by
  intro k hk
  simp only [Circuit.mixVar, Vector.getElem_ofFn]
  -- the sum runs over the same lanes with the same coefficients
  suffices hsum : ∀ (l : List (Fin 3)) (acc acc' : FieldVar), acc.Alike acc' →
      (l.foldl (fun acc j => acc.add ((st.get j).scale ((p.mds.get ⟨k, hk⟩).get j))) acc).Alike
        (l.foldl (fun acc j => acc.add ((st'.get j).scale ((p.mds.get ⟨k, hk⟩).get j))) acc') from
    hsum _ _ _ (.const 0)
  intro l
  induction l with
  | nil => exact fun _ _ hacc => hacc
  | cons j l ih => exact fun _ _ hacc => ih _ _ (hacc.add ((h j j.isLt).scale _))

/-- The S-box layer raises alike lanes to the same power. -/
theorem runsAlike_sboxVar (h : StateAlike st st') (i : Nat) :
    RunsAlike StateAlike (sboxVar p i st) (sboxVar p i st') := by
  unfold sboxVar
  apply runsAlike_ite
  · rw [mapM_three, mapM_three]
    refine (runsAlike_pow (h 0 (by decide)) _).bind fun _ _ ha => ?_
    refine (runsAlike_pow (h 1 (by decide)) _).bind fun _ _ hb => ?_
    refine (runsAlike_pow (h 2 (by decide)) _).bind fun _ _ hc => runsAlike_pure ?_
    intro k hk
    obtain _ | _ | _ | k := k
    · exact ha
    · exact hb
    · exact hc
    · omega
  · rw [getD_eq_getElem st (by decide : 0 < 3), getD_eq_getElem st' (by decide : 0 < 3)]
    refine (runsAlike_pow (h 0 (by decide)) _).bind fun _ _ ha => runsAlike_pure ?_
    intro k hk
    by_cases hk0 : k = 0
    · subst hk0
      simpa using ha
    · simpa [Ne.symm hk0] using h k hk

theorem runsAlike_roundVar (h : StateAlike st st') (i : Nat) :
    RunsAlike StateAlike (roundVar p i st) (roundVar p i st') := by
  rw [roundVar_eq, roundVar_eq]
  exact (runsAlike_sboxVar p (h.addArkVar p i) i).bind fun _ _ hs => runsAlike_pure (hs.mixVar p)

theorem runsAlike_permuteVar (h : StateAlike st st') :
    RunsAlike StateAlike (permuteVar p st) (permuteVar p st') :=
  runsAlike_foldlM (List.forall₂_same.2 fun _ _ => rfl)
    (fun _ _ i _ hs hi => hi ▸ runsAlike_roundVar p hs i) h

/-- Two sponges alike: alike lanes, and the same next rate lane. -/
def SpongeVar.Alike (sp sp' : SpongeVar) : Prop := StateAlike sp.state sp'.state ∧ sp.next = sp'.next

theorem SpongeVar.Alike.addLane {sp sp' : SpongeVar} (h : sp.Alike sp') {x x' : FieldVar}
    (hx : x.Alike x') : (sp.addLane x).Alike (sp'.addLane x') := by
  refine ⟨fun k hk => ?_, by simp [h.2]⟩
  rw [SpongeVar.getElem_addLane _ _ hk, SpongeVar.getElem_addLane _ _ hk, h.2]
  split
  · exact (h.1 k hk).add hx
  · exact h.1 k hk

theorem SpongeVar.runsAlike_prepare {sp sp' : SpongeVar} (h : sp.Alike sp') :
    RunsAlike SpongeVar.Alike (sp.prepare p) (sp'.prepare p) := by
  unfold SpongeVar.prepare
  rw [← h.2]
  exact runsAlike_ite _ ((runsAlike_permuteVar p h.1).bind fun _ _ hs => runsAlike_pure ⟨hs, rfl⟩)
    (runsAlike_pure h)

theorem SpongeVar.runsAlike_absorb {sp sp' : SpongeVar} (h : sp.Alike sp') {x x' : FieldVar}
    (hx : x.Alike x') : RunsAlike SpongeVar.Alike (sp.absorb p x) (sp'.absorb p x') := by
  rw [SpongeVar.absorb_eq, SpongeVar.absorb_eq]
  exact (runsAlike_prepare p h).bind fun _ _ hs => runsAlike_pure (hs.addLane hx)

theorem SpongeVar.runsAlike_squeeze {sp sp' : SpongeVar} (h : sp.Alike sp') :
    RunsAlike FieldVar.Alike (sp.squeeze p) (sp'.squeeze p) :=
  (runsAlike_permuteVar p h.1).bind fun st st' hs => by
    rw [getD_eq_getElem st (by decide : capacity < 3), getD_eq_getElem st' (by decide : capacity < 3)]
    exact runsAlike_pure (hs _ _)

/-- Hashing alike inputs runs alike, whatever their values. -/
theorem runsAlike_hashVar {xs xs' : List FieldVar} (h : List.Forall₂ FieldVar.Alike xs xs') :
    RunsAlike FieldVar.Alike (hashVar p xs) (hashVar p xs') := by
  have hempty : SpongeVar.empty.Alike SpongeVar.empty :=
    ⟨fun k hk => by simpa using FieldVar.Alike.const 0, rfl⟩
  exact (runsAlike_foldlM h (fun _ _ _ _ hs hx => SpongeVar.runsAlike_absorb p hs hx) hempty).bind
    fun _ _ hs => SpongeVar.runsAlike_squeeze p hs

end Sponge

/-! ### The gates of the policy circuit -/

section Gates

open FieldVar

variable {x x' : FieldVar}

/-- Lists mapped from one list are related where the two maps are related at every element. -/
theorem forall₂_map_map {α β γ : Type} {R : β → γ → Prop} {f : α → β} {g : α → γ} {l : List α}
    (h : ∀ a ∈ l, R (f a) (g a)) : List.Forall₂ R (l.map f) (l.map g) :=
  List.forall₂_map_left_iff.2 (List.forall₂_map_right_iff.2 (List.forall₂_same.2 h))

theorem runsAlike_enforceBoolean (raw raw' : UInt64) (hx : x.Alike x') :
    RunsAlike BoolVar.Alike (enforceBoolean raw x) (enforceBoolean raw' x') :=
  (BoolVar.runsAlike_alloc _ _).bind fun _ _ hb =>
    (runsAlike_enforceEq (Alike.ofBool hb) hx).bind fun _ _ _ => runsAlike_pure hb

/-- A bit budget allocates `n` bits and binds their number, whatever the word's bits are. -/
theorem runsAlike_enforceBitBudget (raw raw' : UInt64) (hx : x.Alike x') (n : Nat) :
    RunsAlike (List.Forall₂ BoolVar.Alike) (enforceBitBudget raw x n) (enforceBitBudget raw' x' n) :=
  (runsAlike_mapM (List.forall₂_same.2 fun _ _ => rfl)
      fun _ _ hi => hi ▸ BoolVar.runsAlike_alloc _ _).bind fun _ _ hbits =>
    (runsAlike_enforceEq (Alike.ofBitsLE hbits) hx).bind fun _ _ _ => runsAlike_pure hbits

theorem runsAlike_ageGate (ageRaw requiredRaw ageRaw' requiredRaw' : UInt64) {age age' required
    required' : FieldVar} (ha : age.Alike age') (hr : required.Alike required')
    {ageCheck ageCheck' : BoolVar} (hc : ageCheck.Alike ageCheck') :
    RunsAlike (· = ·) (ageGate ageRaw requiredRaw age required ageCheck)
      (ageGate ageRaw' requiredRaw' age' required' ageCheck') :=
  (runsAlike_enforceBitBudget _ _ ha _).bind fun _ _ _ =>
    (runsAlike_enforceBitBudget _ _ hr _).bind fun _ _ _ =>
      (runsAlike_enforceBitBudget _ _ ((ha.add (.const _)).sub hr) _).bind fun _ _ hbits =>
        -- the comparison bit sits at the same position of alike bits
        (BoolVar.runsAlike_and hc (forall₂_getD_of_default hbits (.const false) _).not).bind
          fun _ _ hok => BoolVar.runsAlike_enforceEq hok false

theorem runsAlike_genderGate (genderRaw requiredRaw genderRaw' requiredRaw' : UInt64)
    {gender gender' required required' : FieldVar} (hg : gender.Alike gender')
    (hr : required.Alike required') {genderCheck genderCheck' : BoolVar}
    (hc : genderCheck.Alike genderCheck') :
    RunsAlike (· = ·) (genderGate genderRaw requiredRaw gender required genderCheck)
      (genderGate genderRaw' requiredRaw' gender' required' genderCheck') :=
  (runsAlike_enforceBoolean _ _ hg).bind fun _ _ hg' =>
    (runsAlike_enforceBoolean _ _ hr).bind fun _ _ hr' =>
      (BoolVar.runsAlike_xor hg' hr').bind fun _ _ hm =>
        (BoolVar.runsAlike_and hc hm).bind fun _ _ hcm => BoolVar.runsAlike_enforceEq hcm false

theorem runsAlike_matchVar {n n' c c' : FieldVar} (hn : n.Alike n') (hc : c.Alike c') :
    RunsAlike BoolVar.Alike (matchVar n c) (matchVar n' c') :=
  (runsAlike_isEq hn hc).bind fun _ _ hs =>
    (runsAlike_isNeq hc (.const 0)).bind fun _ _ hz => BoolVar.runsAlike_and hs hz

theorem runsAlike_nationalityGate {n n' : FieldVar} (hn : n.Alike n') {cs cs' : List FieldVar}
    (hcs : List.Forall₂ Alike cs cs') {check check' : BoolVar} (hc : check.Alike check') :
    RunsAlike (· = ·) (nationalityGate n cs check) (nationalityGate n' cs' check') :=
  ((runsAlike_mapM hcs fun _ _ h => runsAlike_matchVar hn h).bind fun _ _ hhits =>
      BoolVar.runsAlike_anyOf hhits).bind fun _ _ hadm =>
    (BoolVar.runsAlike_and hc hadm.not).bind fun _ _ h => BoolVar.runsAlike_enforceEq h false

theorem runsAlike_leafVar (tag : UInt64) {v v' s s' : FieldVar} (hv : v.Alike v')
    (hs : s.Alike s') : RunsAlike Alike (leafVar tag v s) (leafVar tag v' s') :=
  runsAlike_hashVar _ (.cons (.const _) (.cons hv (.cons hs .nil)))

theorem runsAlike_commitmentVar {a a' g g' n n' sa sa' sg sg' sn sn' : FieldVar}
    (ha : a.Alike a') (hg : g.Alike g') (hn : n.Alike n') (hsa : sa.Alike sa')
    (hsg : sg.Alike sg') (hsn : sn.Alike sn') :
    RunsAlike Alike (commitmentVar a g n sa sg sn) (commitmentVar a' g' n' sa' sg' sn') :=
  (runsAlike_leafVar 1 ha hsa).bind fun _ _ h₁ =>
    (runsAlike_leafVar 2 hg hsg).bind fun _ _ h₂ =>
      (runsAlike_leafVar 3 hn hsn).bind fun _ _ h₃ =>
        runsAlike_hashVar _ (.cons h₁ (.cons h₂ (.cons h₃ .nil)))

/-- **The body of the policy circuit runs alike** for every two policies, attributes and salts,
on alike signal variables: it branches on no value. -/
theorem runsAlike_policyGates (p p' : Policy) (a a' : Attributes) (s s' : Salts)
    {signal signal' : Nat → FieldVar} (hsig : ∀ i, (signal i).Alike (signal' i)) :
    RunsAlike (· = ·) (policyGates p a s signal) (policyGates p' a' s' signal') :=
  (runsAlike_witness _ _).bind fun _ _ hage =>
  (runsAlike_witness _ _).bind fun _ _ hgender =>
  (runsAlike_witness _ _).bind fun _ _ hnat =>
  (runsAlike_witness _ _).bind fun _ _ hsa =>
  (runsAlike_witness _ _).bind fun _ _ hsg =>
  (runsAlike_witness _ _).bind fun _ _ hsn =>
  (runsAlike_enforceBoolean _ _ (hsig _)).bind fun _ _ h₀ =>
  (runsAlike_enforceBoolean _ _ (hsig _)).bind fun _ _ h₂ =>
  (runsAlike_enforceBoolean _ _ (hsig _)).bind fun _ _ h₄ =>
  (runsAlike_ageGate _ _ _ _ hage (hsig _) h₀).bind fun _ _ _ =>
  (runsAlike_genderGate _ _ _ _ hgender (hsig _) h₂).bind fun _ _ _ =>
  (runsAlike_nationalityGate hnat (forall₂_map_map fun _ _ => hsig _) h₄).bind fun _ _ _ =>
  (runsAlike_commitmentVar hage hgender hnat hsa hsg hsn).bind fun _ _ hroot =>
  runsAlike_enforceEq hroot (hsig _)

end Gates

/-! ### The policy system -/

/-- Allocating public inputs appends their values to the instance variables. -/
theorem run_mapM_input_snd (xs : List Fr) (s : System) :
    ((xs.mapM FieldVar.input).run s).2 = { s with inputs := s.inputs ++ xs.toArray } := by
  induction xs generalizing s with
  | nil => rfl
  | cons x xs ih =>
    rw [List.mapM_cons, run_bind, FieldVar.run_input, run_bind, ih, run_pure]
    simp

/-- The signal variables of the circuit: slot `i` is the `i`-th public input, and a slot past
the eleventh is the constant zero. -/
def signalVars (xs : List Fr) (i : Nat) : FieldVar :=
  ((xs.mapM FieldVar.input).run {}).1.getD i (.const 0)

/-- The signal variables of any two lists of eleven public inputs are alike: the same instance
variables, whatever their values. -/
theorem signalVars_alike {xs ys : List Fr} (hxs : xs.length = Signal.count)
    (hys : ys.length = Signal.count) (i : Nat) : (signalVars xs i).Alike (signalVars ys i) := by
  unfold signalVars
  by_cases hi : i < Signal.count
  · rw [getD_run_mapM_input xs (hxs ▸ hi), getD_run_mapM_input ys (hys ▸ hi)]
    exact .var _ _ _
  · -- past the signals, both slots are the constant zero
    have hlen (zs : List Fr) (hzs : zs.length = Signal.count) :
        ((zs.mapM FieldVar.input).run {}).1.length ≤ i := by
      rw [FieldVar.run_mapM_input_fst, List.length_mapIdx, hzs]
      omega
    rw [List.getD_eq_default _ _ (hlen xs hxs), List.getD_eq_default _ _ (hlen ys hys)]
    exact .const 0

/-- The policy system is the circuit's body run on the signal variables, from the system that
holds the constant one and the public inputs. -/
theorem policySystem_eq_run (p : Policy) (a : Attributes) (s : Salts) (root : Fr) :
    policySystem p a s root =
      ((policyGates p a s (signalVars (p.publicInputs root))).run
        { inputs := #[1] ++ (p.publicInputs root).toArray }).2 := by
  rw [policySystem.eq_1, policyCircuit.eq_1, run_bind, run_mapM_input_snd]
  rfl

/-- The signal variables of a list of public inputs are variables, not constants. -/
theorem isConst_signalVars {xs : List Fr} {i : Nat} (hi : i < xs.length) :
    (signalVars xs i).isConst = false := by
  rw [signalVars, getD_run_mapM_input xs hi, FieldVar.isConst_var]

/-- The circuit's body emits 2008 constraints on signal variables that are not constants. -/
theorem emits_policyGates (p : Policy) (a : Attributes) (s : Salts) {signal : Nat → FieldVar}
    (hsig : ∀ i < Signal.count, (signal i).isConst = false) :
    Emits (policyGates p a s signal) 2008 fun _ => True := by
  have hnationality (nationality : FieldVar) (hnc : nationality.isConst = false) (w : Var) (c : Bool) :
      Emits (nationalityGate nationality ((List.range 5).map fun i => signal (Signal.countries + i))
        (.pos w c)) 41 fun _ => True :=
    (emits_nationalityGate hnc (forall_mem_countries hsig) (by simp) w c).cast (by simp)
  obtain ⟨l, v, hroot⟩ : ∃ l v, signal Signal.root = .var l v := by
    have hrc := hsig Signal.root (by decide)
    cases hr : signal Signal.root with
    | const c => rw [hr] at hrc; cases hrc
    | var l v => exact ⟨l, v, rfl⟩
  unfold policyGates
  -- six witnesses, three flags, the three gates, the commitment and the root demand
  refine Emits.cast ?_
    (show 0 + (0 + (0 + (0 + (0 + (0 + (2 + (2 + (2 + (30 + (7 + (41 + (1923 + 1)))))))))))) =
      2008 from rfl)
  refine Emits.bind (FieldVar.emits_witness _) fun age hagec => ?_
  refine Emits.bind (FieldVar.emits_witness _) fun gender hgenderc => ?_
  refine Emits.bind (FieldVar.emits_witness _) fun nationality hnatc => ?_
  refine Emits.bind (FieldVar.emits_witness _) fun saltAge _ => ?_
  refine Emits.bind (FieldVar.emits_witness _) fun saltGender _ => ?_
  refine Emits.bind (FieldVar.emits_witness _) fun saltNationality _ => ?_
  refine Emits.bind (emits_enforceBoolean _ (hsig Signal.ageFlag (by decide))) ?_
  rintro _ ⟨w₀, rfl⟩
  refine Emits.bind (emits_enforceBoolean _ (hsig Signal.genderFlag (by decide))) ?_
  rintro _ ⟨w₂, rfl⟩
  refine Emits.bind (emits_enforceBoolean _ (hsig Signal.nationalityFlag (by decide))) ?_
  rintro _ ⟨w₄, rfl⟩
  refine Emits.bind (emits_ageGate _ _ hagec (hsig Signal.requiredAge (by decide)) _ _)
    fun _ _ => ?_
  refine Emits.bind (emits_genderGate _ _ hgenderc (hsig Signal.requiredGender (by decide)) _ _)
    fun _ _ => ?_
  refine Emits.bind (hnationality nationality hnatc _ _) fun _ _ => ?_
  refine Emits.bind (emits_commitmentVar hagec hgenderc hnatc _ _ _) fun computed _ => ?_
  rw [hroot]
  exact FieldVar.emits_enforceEq_var _ _ _

/-- **The shape of the policy system.** For every two policies, attributes, salts and roots, the
two policy systems have as many instance and witness variables and the same constraints; and the
instance variables are the constant one followed by the eleven public signals. -/
theorem policySystem_shape (p p' : Policy) (a a' : Attributes) (s s' : Salts) (root root' : Fr) :
    (policySystem p a s root).SameShape (policySystem p' a' s' root') ∧
      (policySystem p a s root).inputs = #[1] ++ (p.publicInputs root).toArray := by
  rw [policySystem_eq_run, policySystem_eq_run]
  have hstart : System.SameShape { inputs := #[1] ++ (p.publicInputs root).toArray }
      { inputs := #[1] ++ (p'.publicInputs root').toArray } :=
    ⟨by simp [Policy.length_publicInputs], rfl, rfl⟩
  obtain ⟨-, hshape, hinputs, -⟩ := runsAlike_policyGates p p' a a' s s'
    (signalVars_alike (Policy.length_publicInputs p root) (Policy.length_publicInputs p' root'))
    _ _ hstart
  exact ⟨hshape, hinputs⟩

/-- The policy system has twelve instance variables: the constant one and the eleven signals. -/
theorem numInputs_policySystem (p : Policy) (a : Attributes) (s : Salts) (root : Fr) :
    (policySystem p a s root).numInputs = Signal.count + 1 := by
  rw [System.numInputs, (policySystem_shape p p a a s s root root).2]
  simp [Policy.length_publicInputs]

/-- The policy system has 2008 constraints. -/
theorem numConstraints_policySystem (p : Policy) (a : Attributes) (s : Salts) (root : Fr) :
    (policySystem p a s root).numConstraints = 2008 := by
  have hsig : ∀ i < Signal.count, (signalVars (p.publicInputs root) i).isConst = false :=
    fun i hi => isConst_signalVars (by rwa [Policy.length_publicInputs])
  rw [System.numConstraints, policySystem_eq_run, (emits_policyGates p a s hsig _).1]
  rfl

end Circuit

/-! ### One setup for every policy -/

namespace Groth16

open Circuit

/-- The QAP of a system at a point reads only its shape. -/
theorem qapAt_congr {s t : System} (h : s.SameShape t) (lagrange : Array Fr) :
    qapAt s lagrange = qapAt t lagrange := by
  simp only [qapAt, System.numInputs, System.numWitnesses, System.numConstraints, h.inputs,
    h.witnesses, h.constraints]

/-- **The setup reads only the shape.** Systems of one shape have the same setup, keys and
trapdoor included, for every seed. -/
theorem setup_congr {s t : System} (h : s.SameShape t) (seed : UInt64) :
    setup s seed = setup t seed := by
  have hconstraints : s.numConstraints = t.numConstraints := congrArg Array.size h.constraints
  have hinputs : s.numInputs = t.numInputs := h.inputs
  have hwitnesses : s.numWitnesses = t.numWitnesses := h.witnesses
  rw [setup, setup, funext (qapAt_congr h), hconstraints, hinputs, hwitnesses]

/-- The verifying key has one input point per instance variable. -/
theorem length_gammaAbc_setup (sys : System) (seed : UInt64) :
    (setup sys seed).vk.gammaAbc.length = sys.numInputs := by
  rw [setup]
  simp only [List.length_map, List.length_range]

end Groth16

open Circuit in
/-- **The setup fits every policy.** The setup made from the default policy, attributes and
salts is the setup of the policy system of every policy, attributes, salts and root. -/
theorem policySetup_eq_setup (seed : UInt64) (p : Policy) (a : Attributes) (s : Salts) (root : Fr) :
    policySetup seed = Groth16.setup (policySystem p a s root) seed := by
  rw [policySetup]
  exact Groth16.setup_congr (policySystem_shape _ _ _ _ _ _ _ _).1 seed

/-- The verifying key of every setup expects the eleven public signals. -/
theorem inputCount_policySetup (seed : UInt64) :
    (policySetup seed).vk.inputCount = Signal.count := by
  rw [Groth16.VerifyingKey.inputCount, policySetup, Groth16.length_gammaAbc_setup,
    Circuit.numInputs_policySystem]
  rfl

end ZkPolicy
