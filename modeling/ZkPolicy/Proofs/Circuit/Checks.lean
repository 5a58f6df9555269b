import ZkPolicy.Proofs.Circuit.FieldVar

/-!
# Where an honest run first fails

Completeness says that a gadget run on recorded values adds no failure. A circuit whose honest
witness may break its conditions is specified more finely: by *where* its first failure falls,
the index of the first violated constraint naming the first condition that is false. This module
gives the vocabulary for that, beside `Sound`, `Complete` and `Emits`:

* `firstFailing conds` is the offset of the first false condition of `conds`, each condition
  paired with the offset, within a run, of the constraint that reports it.
* `Checks asg m conds P`: from every system, when `asg` agrees with what the run records, the
  run's first failure is the one before it, or else the first false condition at its offset past
  the start. `Checks.bind` composes it along `>>=`, shifting the second builder's offsets by the
  number of constraints the first emits.
* A booleanity or connective constraint on recorded values never fails (`Complete.checks`), and
  demanding a constant or an equality fails exactly when the recorded values differ
  (`BoolVar.enforceEq_checks`, `FieldVar.enforceEq_checks`).
* `Emits.mapM`, `Complete.mapM`, `Sound.mapM` lift a builder's specification to its run over a
  list, relating results to elements by `List.Forall₂`.

Booleans allocated by a run are variables. `BoolVar.Records asg b β` says that `b` is a variable
recording `β` and that `asg` gives it that bit; `BoolVar.VarReads asg b β` only that `b` is a
variable that `asg` reads as `β`, which is what soundness knows of it.
-/

namespace ZkPolicy

namespace Circuit

open LinComb

/-! ### Conditions and their offsets -/

/-- The offset of the first false condition; each condition is paired with the offset of the
constraint that reports it. -/
def firstFailing (conds : List (Bool × Nat)) : Option Nat :=
  (conds.find? fun c => !c.1).map Prod.snd

/-- The conditions of a run that starts `n` constraints later. -/
def shiftBy (n : Nat) (conds : List (Bool × Nat)) : List (Bool × Nat) :=
  conds.map fun c => (c.1, n + c.2)

@[simp] theorem firstFailing_nil : firstFailing [] = none := rfl

@[simp] theorem firstFailing_cons (b : Bool) (k : Nat) (conds : List (Bool × Nat)) :
    firstFailing ((b, k) :: conds) = if b then firstFailing conds else some k := by
  cases b <;> simp [firstFailing]

@[simp] theorem shiftBy_nil (n : Nat) : shiftBy n [] = [] := rfl

@[simp] theorem shiftBy_cons (n : Nat) (b : Bool) (k : Nat) (conds : List (Bool × Nat)) :
    shiftBy n ((b, k) :: conds) = (b, n + k) :: shiftBy n conds := rfl

theorem firstFailing_append (c₁ c₂ : List (Bool × Nat)) :
    firstFailing (c₁ ++ c₂) = (firstFailing c₁).or (firstFailing c₂) := by
  rw [firstFailing, List.find?_append, Option.map_or]
  rfl

theorem firstFailing_shiftBy (n : Nat) (conds : List (Bool × Nat)) :
    firstFailing (shiftBy n conds) = (firstFailing conds).map (n + ·) := by
  induction conds with
  | nil => rfl
  | cons c conds ih =>
    obtain ⟨b, k⟩ := c
    cases b <;> simp [ih]

/-- No condition fails exactly when all hold. -/
theorem firstFailing_eq_none_iff {conds : List (Bool × Nat)} :
    firstFailing conds = none ↔ ∀ c ∈ conds, c.1 = true := by
  simp [firstFailing, List.find?_eq_none]

/-! ### Checks of a builder -/

section Checks

variable {α β : Type} {asg : Assignment}

/-- **The conditions a builder checks** under `asg`: from every system, when `asg` agrees with
the values the run records, the run's first failure is the one before it, or else the first
false condition of `conds` at its offset past the start; and the result satisfies `P`. -/
def Checks (asg : Assignment) (m : Build α) (conds : List (Bool × Nat)) (P : α → Prop) : Prop :=
  ∀ s, (m.run s).2.Agrees asg →
    (m.run s).2.firstFailure asg =
        (s.firstFailure asg).or ((firstFailing conds).map (s.constraints.size + ·)) ∧
      P (m.run s).1

variable {m : Build α} {f : α → Build β} {P : α → Prop} {Q : β → Prop}
  {c₁ c₂ : List (Bool × Nat)}

/-- Checks compose along `>>=`: the second builder's conditions come after the first's,
shifted by the number of constraints the first emits. -/
theorem Checks.bind [Grows m] [∀ a, Grows (f a)] {n : Nat} {P' : α → Prop}
    (hm : Checks asg m c₁ P) (hn : Emits m n P') (hf : ∀ a, P a → P' a → Checks asg (f a) c₂ Q) :
    Checks asg (m >>= f) (c₁ ++ shiftBy n c₂) Q := by
  intro s hagree
  rw [run_bind] at hagree ⊢
  -- the middle system agrees too, and it sits `n` constraints past the start
  obtain ⟨hff₁, hp⟩ := hm s (hagree.mono (Grows.le _))
  obtain ⟨hsize, hp'⟩ := hn s
  obtain ⟨hff₂, hq⟩ := hf _ hp hp' _ hagree
  refine ⟨?_, hq⟩
  rw [hff₂, hff₁, hsize, firstFailing_append, firstFailing_shiftBy, Option.map_or,
    Option.or_assoc, Option.map_map]
  simp only [Function.comp_def, Nat.add_assoc]

/-- Conditions with the same first failure are checked alike. -/
theorem Checks.congr (h : Checks asg m c₁ P) (hc : firstFailing c₁ = firstFailing c₂) :
    Checks asg m c₂ P := by
  intro s hagree
  rw [← hc]
  exact h s hagree

theorem Checks.mono {P' : α → Prop} (h : Checks asg m c₁ P) (hP : ∀ a, P a → P' a) :
    Checks asg m c₁ P' :=
  fun s hs => (h s hs).imp_right (hP _)

/-- A complete builder checks nothing: its run adds no failure. -/
theorem Complete.checks [Grows m] (h : Complete asg m P) : Checks asg m [] P := by
  intro s hagree
  obtain ⟨hb, hp⟩ := h s hagree
  rw [System.firstFailure_of_holdsBetween (Grows.le s) hb]
  exact ⟨by simp, hp⟩

theorem checks_pure {a : α} (h : P a) : Checks asg (pure a) [] P :=
  (complete_pure h).checks

end Checks

/-! ### Builders run over a list

A builder run on each element of a list, by `List.mapM`, relates its results to the elements
one by one (`List.Forall₂`) when each run relates its result to its element. -/

section MapM

variable {α γ : Type} {asg : Assignment} {f : γ → Build α} {R : α → γ → Prop}

theorem Emits.mapM {n : Nat} :
    ∀ {l : List γ}, (∀ x ∈ l, Emits (f x) n (R · x)) →
      Emits (l.mapM f) (n * l.length) (List.Forall₂ R · l)
  | [], _ => emits_pure .nil
  | x :: l, h => by
    rw [List.mapM_cons]
    refine Emits.cast ?_ (show n + (n * l.length + 0) = n * (x :: l).length by
      rw [List.length_cons, Nat.mul_succ]
      omega)
    refine Emits.bind (h x List.mem_cons_self) fun a ha => ?_
    refine Emits.bind (Emits.mapM fun y hy => h y (List.mem_cons_of_mem _ hy)) fun as has => ?_
    exact emits_pure (.cons ha has)

theorem Complete.mapM [∀ x, Grows (f x)] :
    ∀ {l : List γ}, (∀ x ∈ l, Complete asg (f x) (R · x)) →
      Complete asg (l.mapM f) (List.Forall₂ R · l)
  | [], _ => complete_pure .nil
  | x :: l, h => by
    rw [List.mapM_cons]
    refine Complete.bind (h x List.mem_cons_self) fun a ha => ?_
    refine Complete.bind (Complete.mapM fun y hy => h y (List.mem_cons_of_mem _ hy)) fun as has => ?_
    exact complete_pure (.cons ha has)

theorem Sound.mapM [∀ x, Grows (f x)] :
    ∀ {l : List γ}, (∀ x ∈ l, Sound asg (f x) (R · x)) →
      Sound asg (l.mapM f) (List.Forall₂ R · l)
  | [], _ => sound_pure .nil
  | x :: l, h => by
    rw [List.mapM_cons]
    refine Sound.bind (h x List.mem_cons_self) fun a ha => ?_
    refine Sound.bind (Sound.mapM fun y hy => h y (List.mem_cons_of_mem _ hy)) fun as has => ?_
    exact sound_pure (.cons ha has)

end MapM

/-! ### Growth of the connectives and tests -/

namespace BoolVar

instance grows_connective {value : Bool} {a b : LinComb} {c : LinComb → LinComb} :
    Grows (connective value a b c) :=
  ⟨le_connective value a b c⟩

section Vars

variable {x y : Var} {vx vy : Bool}

instance grows_andVars : Grows (andVars x y vx vy) := grows_connective
instance grows_andNotVars : Grows (andNotVars x y vx vy) := grows_connective
instance grows_norVars : Grows (norVars x y vx vy) := grows_connective
instance grows_orVars : Grows (orVars x y vx vy) := grows_connective
instance grows_xorVars : Grows (xorVars x y vx vy) := grows_connective

end Vars

instance grows_and {x y : BoolVar} : Grows (x.and y) :=
  ⟨fun s => by unfold BoolVar.and; split <;> exact Grows.le s⟩

instance grows_or {x y : BoolVar} : Grows (x.or y) :=
  ⟨fun s => by unfold BoolVar.or; split <;> exact Grows.le s⟩

instance grows_xor {x y : BoolVar} : Grows (x.xor y) :=
  ⟨fun s => by unfold BoolVar.xor; split <;> exact Grows.le s⟩

instance grows_isNeq {x y : BoolVar} : Grows (x.isNeq y) := grows_xor

instance grows_enforceEq {x : BoolVar} {b : Bool} : Grows (x.enforceEq b) := ⟨le_enforceEq x b⟩

end BoolVar

namespace FieldVar

instance grows_isEq {x y : FieldVar} : Grows (x.isEq y) := ⟨le_isEq x y⟩

instance grows_isNeq {x y : FieldVar} : Grows (x.isNeq y) := by
  unfold isNeq
  infer_instance

instance grows_enforceEq {x y : FieldVar} : Grows (x.enforceEq y) :=
  ⟨fun s => by
    cases x <;> cases y
    case const.const => exact le_rfl
    all_goals exact System.le_pushConstraint _ _⟩

end FieldVar

/-! ### Booleans allocated by a run -/

namespace BoolVar

variable {asg : Assignment}

/-- The boolean is a variable recording `β`, and the assignment gives the variable that bit. -/
def Records (asg : Assignment) (b : BoolVar) (β : Bool) : Prop :=
  ∃ w, b = pos w β ∧ asg w = bitValue β

/-- The boolean is a variable, which the assignment reads as `β`. -/
def VarReads (asg : Assignment) (b : BoolVar) (β : Bool) : Prop :=
  ∃ w v, b = pos w v ∧ asg w = bitValue β

theorem Records.varReads {b : BoolVar} {β : Bool} (h : b.Records asg β) : b.VarReads asg β := by
  obtain ⟨w, hb, hw⟩ := h
  exact ⟨w, β, hb, hw⟩

theorem Records.value_eq {b : BoolVar} {β : Bool} (h : b.Records asg β) : b.value = β := by
  obtain ⟨w, rfl, -⟩ := h
  rfl

theorem VarReads.readsAs {b : BoolVar} {β : Bool} (h : b.VarReads asg β) : b.ReadsAs asg β := by
  obtain ⟨w, v, rfl, hw⟩ := h
  exact readsAs_pos.2 hw

theorem Records.readsAs {b : BoolVar} {β : Bool} (h : b.Records asg β) : b.ReadsAs asg β :=
  h.varReads.readsAs

theorem Records.honest {b : BoolVar} {β : Bool} (h : b.Records asg β) : b.Honest asg := by
  rw [Honest, h.value_eq]
  exact h.readsAs

theorem emits_alloc (b : Bool) : Emits (alloc b) 1 fun r => ∃ w, r = pos w b := by
  intro s
  rw [run_alloc]
  exact ⟨Array.size_push .., _, rfl⟩

/-- An allocated bit records its value. -/
theorem alloc_records (hone : asg Var.one = 1) (b : Bool) :
    Complete asg (alloc b) (·.Records asg b) := by
  intro s hagree
  obtain ⟨hb, hr⟩ := alloc_complete hone hagree
  rw [run_alloc] at hr ⊢
  exact ⟨hb, _, rfl, readsAs_pos.1 hr⟩

/-- An allocated bit is a variable that reads as a bit. -/
theorem alloc_varReads (hone : asg Var.one = 1) (b : Bool) :
    Sound asg (alloc b) fun r => ∃ β, r.VarReads asg β := by
  intro s hb
  obtain ⟨β, hβ⟩ := alloc_sound hone hb
  rw [run_alloc] at hβ ⊢
  exact ⟨β, _, _, rfl, readsAs_pos.1 hβ⟩

theorem emits_connective (value : Bool) (a b : LinComb) (c : LinComb → LinComb) :
    Emits (connective value a b c) 1 fun r => ∃ w, r = pos w value := by
  intro s
  rw [run_connective]
  exact ⟨Array.size_push .., _, rfl⟩

/-- A connective records its value when the recorded value satisfies its constraint. -/
theorem connective_records {value : Bool} {a b : LinComb} {c : LinComb → LinComb}
    (hk : ∀ w, asg w = bitValue value → (⟨a, b, c (ofVar w)⟩ : Constraint).Holds asg) :
    Complete asg (connective value a b c) (·.Records asg value) := by
  intro s hagree
  obtain ⟨hb, hr⟩ := connective_complete hagree (hk _)
  rw [run_connective] at hr ⊢
  exact ⟨hb, _, rfl, readsAs_pos.1 hr⟩

/-- A connective whose constraint pins its result to `β` reads as `β`. -/
theorem connective_varReads {value β : Bool} {a b : LinComb} {c : LinComb → LinComb}
    (hpin : ∀ w, (⟨a, b, c (ofVar w)⟩ : Constraint).Holds asg ↔ asg w = bitValue β) :
    Sound asg (connective value a b c) (·.VarReads asg β) := by
  intro s hb
  have hk := holdsBetween_connective_iff.1 hb
  rw [run_connective]
  exact ⟨_, _, rfl, (hpin _).1 hk⟩

end BoolVar

/-! ### Demanding a constant or an equality -/

namespace BoolVar

variable {asg : Assignment}

theorem emits_enforceEq (x : BoolVar) (b : Bool) : Emits (x.enforceEq b) 1 fun _ => True := by
  intro s
  rw [run_enforceEq]
  exact ⟨Array.size_push .., trivial⟩

/-- Demanding a constant of a boolean that reads as `β` fails unless `β` is that constant. -/
theorem enforceEq_checks (hone : asg Var.one = 1) {x : BoolVar} {β : Bool} (hx : x.ReadsAs asg β)
    (b : Bool) : Checks asg (x.enforceEq b) [(decide (β = b), 0)] fun _ => True := by
  intro s _
  refine ⟨?_, trivial⟩
  rw [firstFailure_enforceEq hone]
  by_cases hβ : β = b
  · subst hβ
    simp [hx]
  · have hr : ¬x.ReadsAs asg b := fun hb => hβ (hx.unique hb)
    simp [hr, hβ]

theorem enforceEq_sound (hone : asg Var.one = 1) (x : BoolVar) (b : Bool) :
    Sound asg (x.enforceEq b) fun _ => x.ReadsAs asg b :=
  fun s h => (holdsBetween_enforceEq_iff hone x b s).1 h

end BoolVar

namespace FieldVar

variable {asg : Assignment}

theorem emits_enforceEq_var (x : FieldVar) (l : LinComb) (v : Fr) :
    Emits (x.enforceEq (var l v)) 1 fun _ => True := by
  intro s
  rw [run_enforceEq_var]
  exact ⟨Array.size_push .., trivial⟩

/-- Demanding equality of two elements that evaluate to `a` and `v` fails unless `a = v`. -/
theorem enforceEq_checks (hone : asg Var.one = 1) {x : FieldVar} {a : Fr} (hx : x.lc.eval asg = a)
    {l : LinComb} {v : Fr} (hl : l.eval asg = v) :
    Checks asg (x.enforceEq (var l v)) [(decide (a = v), 0)] fun _ => True := by
  intro s _
  refine ⟨?_, trivial⟩
  rw [firstFailure_enforceEq hone, hl, hx]
  by_cases he : a = v <;> simp [he]

theorem enforceEq_sound (hone : asg Var.one = 1) (x : FieldVar) (l : LinComb) (v : Fr) :
    Sound asg (x.enforceEq (var l v)) fun _ => x.lc.eval asg = l.eval asg :=
  fun s h => (holdsBetween_enforceEq_iff hone x l v s).1 h

end FieldVar

end Circuit

end ZkPolicy
