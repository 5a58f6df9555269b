import Mathlib
import ZkPolicy.Proofs.Field.Prime
import ZkPolicy.Proofs.Field.Ring
import ZkPolicy.Circuit.System

/-!
# Assignments, and what building does to a system

A constraint system is judged against an *assignment*, a value for every variable. The system's
own recorded values are one assignment, the honest one; a prover may choose any other. This
module gives the vocabulary in which the gadgets are specified:

* `LinComb.eval` is additive and homogeneous (`LinComb.eval_add`, `LinComb.eval_scale`): the
  canonical merge of term lists is a sum, whatever terms cancel.
* `System.firstFailure s asg` is the index of the first constraint of `s` that `asg` violates;
  the recorded violation `System.firstViolation` is the one of the honest assignment.
* Building only appends (`s ≤ t`, a preorder), so a violation, once there, stays where it is
  (`System.firstFailure_of_le`), an assignment that satisfies a system satisfies every earlier
  state (`System.HoldsAll.mono`), and one that agrees with a system's recorded values agrees with
  every earlier state (`System.Agrees.mono`).

A gadget is then specified by three facts about a run from `s`: it only appends, its
constraints force the meaning of its output under every assignment that satisfies them
(soundness), and under the honest assignment they all hold and the output's combination
evaluates to its recorded value (completeness, stated as "the first failure is unchanged").
-/

namespace ZkPolicy

namespace Circuit

/-- A value for every variable. -/
abbrev Assignment := Var → Fr

namespace LinComb

/-- A combination's value is the sum of its terms' values. -/
theorem eval_eq_sum (f : Assignment) (x : LinComb) :
    x.eval f = (x.terms.map fun t => t.2 * f t.1).sum := by
  -- the accumulator of the fold is the sum of the terms seen so far
  rw [eval, ← zero_add (List.sum _)]
  generalize (0 : Fr) = init
  induction x.terms generalizing init with
  | nil => simp
  | cons t ts ih =>
    obtain ⟨v, a⟩ := t
    simp only [List.foldl_cons, ih, List.map_cons, List.sum_cons, add_assoc]

@[simp] theorem eval_zero (f : Assignment) : zero.eval f = 0 := by
  simp [eval_eq_sum, zero]

@[simp] theorem eval_ofVar (f : Assignment) (v : Var) : (ofVar v).eval f = f v := by
  simp [eval_eq_sum, ofVar]

@[simp] theorem eval_const (f : Assignment) (c : Fr) : (const c).eval f = c * f Var.one := by
  unfold const
  split
  · next hc => simp [hc]
  · simp [eval_eq_sum]

/-- Merging adds: the coefficients of a shared variable are summed, and a term whose
coefficients cancel contributes nothing either way. -/
theorem sum_mergeTerms (f : Assignment) (xs ys : List (Var × Fr)) :
    ((mergeTerms xs ys).map fun t => t.2 * f t.1).sum =
      (xs.map fun t => t.2 * f t.1).sum + (ys.map fun t => t.2 * f t.1).sum := by
  fun_induction mergeTerms xs ys with
  | case1 ys => simp
  | case2 xs => simp
  | case3 a xs v b ys hab ih =>
    have hzero : a * f v + b * f v = 0 := by rw [← add_mul, hab, zero_mul]
    rw [ih, List.map_cons, List.map_cons, List.sum_cons, List.sum_cons]
    linear_combination -hzero
  | case4 a xs v b ys _ ih =>
    simp only [List.map_cons, List.sum_cons, ih]
    ring
  | case5 v a xs w b ys _ _ ih =>
    simp only [List.map_cons, List.sum_cons, ih]
    ring
  | case6 v a xs w b ys _ _ ih =>
    simp only [List.map_cons, List.sum_cons, ih]
    ring

@[simp] theorem eval_add (f : Assignment) (x y : LinComb) : (x + y).eval f = x.eval f + y.eval f := by
  show (LinComb.mk (mergeTerms x.terms y.terms)).eval f = _
  rw [eval_eq_sum, eval_eq_sum, eval_eq_sum, sum_mergeTerms]

@[simp] theorem eval_scale (f : Assignment) (c : Fr) (x : LinComb) :
    (scale c x).eval f = c * x.eval f := by
  unfold scale
  split
  · next hc => simp [hc]
  · rw [eval_eq_sum, eval_eq_sum, List.map_map, ← List.sum_map_mul_left]
    congr 1
    apply List.map_congr_left
    intro t _
    simp [mul_assoc]

@[simp] theorem eval_neg (f : Assignment) (x : LinComb) : (-x).eval f = -x.eval f := by
  show (scale (-1) x).eval f = _
  rw [eval_scale, neg_one_mul]

@[simp] theorem eval_sub (f : Assignment) (x y : LinComb) : (x - y).eval f = x.eval f - y.eval f := by
  show (x + -y).eval f = _
  rw [eval_add, eval_neg, sub_eq_add_neg]

end LinComb

/-- The assignment satisfies the constraint `a · b = c`. -/
def Constraint.Holds (asg : Assignment) (k : Constraint) : Prop :=
  k.a.eval asg * k.b.eval asg = k.c.eval asg

instance (asg : Assignment) (k : Constraint) : Decidable (k.Holds asg) :=
  inferInstanceAs (Decidable (k.a.eval asg * k.b.eval asg = k.c.eval asg))

namespace System

/-- The index of the first constraint that the assignment violates. -/
def firstFailure (s : System) (asg : Assignment) : Option Nat :=
  s.constraints.findIdx? fun k => !decide (k.Holds asg)

/-- The assignment satisfies every constraint. -/
def HoldsAll (s : System) (asg : Assignment) : Prop := ∀ k ∈ s.constraints, k.Holds asg

/-- The assignment satisfies the constraints of `t` past the first `s.constraints.size`: those
that a run from `s` to `t` emitted. -/
def HoldsBetween (s t : System) (asg : Assignment) : Prop :=
  ∀ k ∈ t.constraints.toList.drop s.constraints.size, k.Holds asg

/-- The assignment gives every allocated variable its recorded value. -/
def Agrees (s : System) (asg : Assignment) : Prop :=
  (∀ i (h : i < s.inputs.size), asg (.inst i) = s.inputs[i]) ∧
    ∀ i (h : i < s.witnesses.size), asg (.wit i) = s.witnesses[i]

/-- The recorded violation is the first failure of the recorded values. -/
theorem firstViolation_eq_firstFailure (s : System) : s.firstViolation = s.firstFailure s.value :=
  rfl

theorem firstFailure_eq_none_iff {s : System} {asg : Assignment} :
    s.firstFailure asg = none ↔ s.HoldsAll asg := by
  simp [firstFailure, HoldsAll]

/-- Emitting a constraint records it as the first failure if it fails and nothing failed
before. -/
theorem firstFailure_of_constraints (s : System) {t : System} {k : Constraint}
    (h : t.constraints = s.constraints.push k) (asg : Assignment) :
    t.firstFailure asg =
      (s.firstFailure asg).or (if k.Holds asg then none else some s.constraints.size) := by
  simp only [firstFailure, h, Array.findIdx?_push]
  by_cases hk : k.Holds asg <;> simp [hk]

/-- The recorded values agree with the system. -/
theorem agrees_value (s : System) : s.Agrees s.value := by
  constructor
  · intro i h
    simp [value, Array.getD, h]
  · intro i h
    simp [value, Array.getD, h]

/-- `t` extends `s`: the variables and constraints of `s` are kept in place, and more may
follow. -/
structure Extends (s t : System) : Prop where
  inputs : ∃ xs, t.inputs = s.inputs ++ xs
  witnesses : ∃ xs, t.witnesses = s.witnesses ++ xs
  constraints : ∃ ks, t.constraints = s.constraints ++ ks

instance : Preorder System where
  le := Extends
  le_refl s := ⟨⟨#[], by simp⟩, ⟨#[], by simp⟩, ⟨#[], by simp⟩⟩
  le_trans s t u hst htu := by
    obtain ⟨⟨xs, hx⟩, ⟨ws, hw⟩, ⟨ks, hk⟩⟩ := hst
    obtain ⟨⟨xs', hx'⟩, ⟨ws', hw'⟩, ⟨ks', hk'⟩⟩ := htu
    exact ⟨⟨xs ++ xs', by rw [hx', hx, Array.append_assoc]⟩,
      ⟨ws ++ ws', by rw [hw', hw, Array.append_assoc]⟩,
      ⟨ks ++ ks', by rw [hk', hk, Array.append_assoc]⟩⟩

variable {s t : System} {asg : Assignment}

theorem le_iff_extends : s ≤ t ↔ s.Extends t := Iff.rfl

theorem le_pushInput (s : System) (x : Fr) : s ≤ { s with inputs := s.inputs.push x } :=
  ⟨⟨#[x], by simp⟩, ⟨#[], by simp⟩, ⟨#[], by simp⟩⟩

theorem le_pushWitness (s : System) (x : Fr) : s ≤ { s with witnesses := s.witnesses.push x } :=
  ⟨⟨#[], by simp⟩, ⟨#[x], by simp⟩, ⟨#[], by simp⟩⟩

theorem le_pushConstraint (s : System) (k : Constraint) :
    s ≤ { s with constraints := s.constraints.push k } :=
  ⟨⟨#[], by simp⟩, ⟨#[], by simp⟩, ⟨#[k], by simp⟩⟩

theorem HoldsAll.mono (h : s ≤ t) (ht : t.HoldsAll asg) : s.HoldsAll asg := by
  obtain ⟨ks, hk⟩ := h.constraints
  intro k hmem
  apply ht k
  rw [hk]
  exact Array.mem_append_left _ hmem

theorem Agrees.mono (h : s ≤ t) (ht : t.Agrees asg) : s.Agrees asg := by
  obtain ⟨xs, hx⟩ := h.inputs
  obtain ⟨ws, hw⟩ := h.witnesses
  constructor
  · intro i hi
    have hi' : i < t.inputs.size := by simp [hx]; omega
    rw [ht.1 i hi']
    simp only [hx, Array.getElem_append_left hi]
  · intro i hi
    have hi' : i < t.witnesses.size := by simp [hw]; omega
    rw [ht.2 i hi']
    simp only [hw, Array.getElem_append_left hi]

/-- A violation stays the first one as the system grows. -/
theorem firstFailure_of_le (h : s ≤ t) {i : Nat} (hs : s.firstFailure asg = some i) :
    t.firstFailure asg = some i := by
  obtain ⟨ks, hk⟩ := h.constraints
  simp only [firstFailure, hk, Array.findIdx?_append] at hs ⊢
  rw [hs, Option.some_or]

theorem holdsBetween_refl (s : System) (asg : Assignment) : HoldsBetween s s asg := by
  simp [HoldsBetween, List.drop_eq_nil_of_le]

/-- One emitted constraint: the run's constraints hold exactly when it does. -/
theorem holdsBetween_push {k : Constraint} (h : t.constraints = s.constraints.push k) :
    HoldsBetween s t asg ↔ k.Holds asg := by
  simp [HoldsBetween, h]

/-- The run's constraints as the list past the earlier one's length; with the later array written
as pushes onto the earlier one, `simp` then lists the constraints the run emitted. -/
theorem holdsBetween_iff_toList :
    HoldsBetween s t asg ↔ ∀ k ∈ t.constraints.toList.drop s.constraints.toList.length, k.Holds asg := by
  rw [Array.length_toList, HoldsBetween]

/-- The constraints emitted from `s` to `u`, through `t`, are those emitted before `t` and
those emitted after. -/
theorem holdsBetween_trans_iff {u : System} (hst : s ≤ t) (htu : t ≤ u) :
    HoldsBetween s u asg ↔ HoldsBetween s t asg ∧ HoldsBetween t u asg := by
  obtain ⟨ks, hk⟩ := hst.constraints
  obtain ⟨ks', hk'⟩ := htu.constraints
  -- the run emitted `ks`, then `ks'`
  have h₁ : t.constraints.toList.drop s.constraints.size = ks.toList := by
    rw [hk, Array.toList_append, ← Array.length_toList, List.drop_left]
  have h₂ : u.constraints.toList.drop t.constraints.size = ks'.toList := by
    rw [hk', Array.toList_append, ← Array.length_toList, List.drop_left]
  have h₃ : u.constraints.toList.drop s.constraints.size = ks.toList ++ ks'.toList := by
    rw [hk', hk, Array.toList_append, Array.toList_append, List.append_assoc,
      ← Array.length_toList, List.drop_left]
  simp only [HoldsBetween, h₁, h₂, h₃, List.forall_mem_append]

theorem HoldsBetween.trans {u : System} (hst : s ≤ t) (htu : t ≤ u) (h₁ : HoldsBetween s t asg)
    (h₂ : HoldsBetween t u asg) : HoldsBetween s u asg :=
  (holdsBetween_trans_iff hst htu).2 ⟨h₁, h₂⟩

/-- A run whose constraints hold keeps the first failure where it was. -/
theorem firstFailure_of_holdsBetween (hst : s ≤ t) (h : HoldsBetween s t asg) :
    t.firstFailure asg = s.firstFailure asg := by
  obtain ⟨ks, hk⟩ := hst.constraints
  have hks : ks.findIdx? (fun k => !decide (k.Holds asg)) = none := by
    rw [Array.findIdx?_eq_none_iff]
    intro k hmem
    have hk' : k.Holds asg := h k (by simp [hk, hmem])
    simp [hk']
  simp only [firstFailure, hk, Array.findIdx?_append, hks, Option.map_none, Option.or_none]

/-- A satisfied system satisfies every run that ended in it. -/
theorem HoldsAll.holdsBetween (h : t.HoldsAll asg) (s : System) : HoldsBetween s t asg :=
  fun k hk => h k (Array.mem_toList_iff.1 (List.mem_of_mem_drop hk))

/-- A system that extends the empty one gives the constant one its value. -/
theorem value_one_of_le (h : ({} : System) ≤ t) : t.value Var.one = 1 := by
  obtain ⟨xs, hx⟩ := h.inputs
  simp [value, Var.one, hx]

/-- An assignment agreeing with a system that extends the empty one gives the constant one its
value. -/
theorem Agrees.one (h : ({} : System) ≤ t) (ht : t.Agrees asg) : asg Var.one = 1 := by
  obtain ⟨xs, hx⟩ := h.inputs
  have h0 : 0 < t.inputs.size := by simp [hx]
  rw [Var.one, ht.1 0 h0]
  simp [hx]

end System

/-! ### Running the primitives -/

section Run

variable {α β : Type}

theorem run_bind (x : Build α) (f : α → Build β) (s : System) :
    (x >>= f).run s = (f (x.run s).1).run (x.run s).2 := rfl

@[simp] theorem run_pure (a : α) (s : System) : (pure a : Build α).run s = (a, s) := rfl

@[simp] theorem run_newInput (x : Fr) (s : System) :
    (newInput x).run s = (.inst s.inputs.size, { s with inputs := s.inputs.push x }) := rfl

@[simp] theorem run_newWitness (x : Fr) (s : System) :
    (newWitness x).run s = (.wit s.witnesses.size, { s with witnesses := s.witnesses.push x }) :=
  rfl

@[simp] theorem run_enforce (a b c : LinComb) (s : System) :
    (enforce a b c).run s = ((), { s with constraints := s.constraints.push ⟨a, b, c⟩ }) := rfl

/-- A builder that only appends: every run of it extends the system it starts from. Every
gadget grows, since the primitives do and binding keeps it; as a class, instance search
assembles the proof for a composite builder from those of its parts. -/
class Grows (m : Build α) : Prop where
  le : ∀ s, s ≤ (m.run s).2

instance grows_bind {m : Build α} {f : α → Build β} [Grows m] [∀ a, Grows (f a)] :
    Grows (m >>= f) :=
  ⟨fun s => le_trans (@Grows.le _ m _ s) (@Grows.le _ (f _) _ _)⟩

instance grows_pure {a : α} : Grows (pure a : Build α) := ⟨fun s => le_refl s⟩

instance grows_ite {c : Prop} [Decidable c] {m₁ m₂ : Build α} [Grows m₁] [Grows m₂] :
    Grows (if c then m₁ else m₂) :=
  ⟨fun s => by split <;> exact Grows.le s⟩

instance grows_newInput {x : Fr} : Grows (newInput x) := ⟨fun s => System.le_pushInput s x⟩

instance grows_newWitness {x : Fr} : Grows (newWitness x) := ⟨fun s => System.le_pushWitness s x⟩

instance grows_enforce {a b c : LinComb} : Grows (enforce a b c) :=
  ⟨fun s => System.le_pushConstraint s _⟩

instance grows_foldlM {γ : Type} {f : β → γ → Build β} [∀ b c, Grows (f b c)] {l : List γ}
    {init : β} : Grows (l.foldlM f init) := by
  induction l generalizing init with
  | nil => exact grows_pure
  | cons c l ih =>
    rw [List.foldlM_cons]
    exact grows_bind

instance grows_mapM {f : α → Build β} [∀ a, Grows (f a)] {l : List α} : Grows (l.mapM f) := by
  induction l with
  | nil => exact grows_pure
  | cons a l ih =>
    rw [List.mapM_cons]
    exact grows_bind

/-! ### Specifications of builders

A gadget is specified by what its constraints force and by what its recorded values satisfy.
Both are stated from an arbitrary starting system, so that they compose along `>>=`: the
constraints of a bound run split at the middle system (`System.holdsBetween_trans_iff`), and an
assignment agreeing with the end agrees with the middle (`System.Agrees.mono`). -/

/-- **Soundness** of a builder under `asg`: from every system, once the constraints the run
emits hold, its result satisfies `P`. -/
def Sound (asg : Assignment) (m : Build α) (P : α → Prop) : Prop :=
  ∀ s, System.HoldsBetween s (m.run s).2 asg → P (m.run s).1

/-- **Completeness** of a builder under `asg`: from every system, when `asg` agrees with the
values the run records, the constraints it emits hold and its result satisfies `P`. -/
def Complete (asg : Assignment) (m : Build α) (P : α → Prop) : Prop :=
  ∀ s, (m.run s).2.Agrees asg → System.HoldsBetween s (m.run s).2 asg ∧ P (m.run s).1

/-- A builder emits `n` constraints from every system, and its result satisfies `P`. -/
def Emits (m : Build α) (n : Nat) (P : α → Prop) : Prop :=
  ∀ s, (m.run s).2.constraints.size = s.constraints.size + n ∧ P (m.run s).1

variable {asg : Assignment} {m : Build α} {f : α → Build β} {P : α → Prop} {Q : β → Prop}

theorem Sound.bind [Grows m] [∀ a, Grows (f a)] (hm : Sound asg m P)
    (hf : ∀ a, P a → Sound asg (f a) Q) : Sound asg (m >>= f) Q := by
  intro s h
  rw [run_bind] at h ⊢
  obtain ⟨h₁, h₂⟩ := (System.holdsBetween_trans_iff (Grows.le s) (Grows.le _)).1 h
  exact hf _ (hm s h₁) _ h₂

theorem Complete.bind [Grows m] [∀ a, Grows (f a)] (hm : Complete asg m P)
    (hf : ∀ a, P a → Complete asg (f a) Q) : Complete asg (m >>= f) Q := by
  intro s hagree
  rw [run_bind] at hagree ⊢
  -- the middle system agrees too, since the rest of the run only appends to it
  obtain ⟨h₁, hp⟩ := hm s (hagree.mono (Grows.le _))
  obtain ⟨h₂, hq⟩ := hf _ hp _ hagree
  exact ⟨(System.holdsBetween_trans_iff (Grows.le s) (Grows.le _)).2 ⟨h₁, h₂⟩, hq⟩

theorem Emits.bind {k l : Nat} (hm : Emits m k P) (hf : ∀ a, P a → Emits (f a) l Q) :
    Emits (m >>= f) (k + l) Q := by
  intro s
  rw [run_bind]
  obtain ⟨h₁, hp⟩ := hm s
  obtain ⟨h₂, hq⟩ := hf _ hp (m.run s).2
  exact ⟨by rw [h₂, h₁, Nat.add_assoc], hq⟩

theorem sound_pure {a : α} (h : P a) : Sound asg (pure a) P := fun _ _ => h

theorem complete_pure {a : α} (h : P a) : Complete asg (pure a) P :=
  fun s _ => ⟨System.holdsBetween_refl s asg, h⟩

theorem emits_pure {a : α} (h : P a) : Emits (pure a) 0 P := fun _ => ⟨rfl, h⟩

theorem Sound.mono {P' : α → Prop} (h : Sound asg m P) (hP : ∀ a, P a → P' a) : Sound asg m P' :=
  fun s hs => hP _ (h s hs)

theorem Complete.mono {P' : α → Prop} (h : Complete asg m P) (hP : ∀ a, P a → P' a) :
    Complete asg m P' :=
  fun s hs => (h s hs).imp_right (hP _)

theorem Emits.mono {n : Nat} {P' : α → Prop} (h : Emits m n P) (hP : ∀ a, P a → P' a) :
    Emits m n P' :=
  fun s => (h s).imp_right (hP _)

theorem Emits.cast {n n' : Nat} (h : Emits m n P) (hn : n = n') : Emits m n' P := hn ▸ h

end Run

/-- An assignment agreeing with a later system gives a fresh witness the value it was
allocated with. -/
theorem System.Agrees.witness_push {s t : System} {asg : Assignment} {x : Fr}
    (h : { s with witnesses := s.witnesses.push x } ≤ t) (ht : t.Agrees asg) :
    asg (.wit s.witnesses.size) = x := by
  have h' := ht.mono h
  rw [h'.2 s.witnesses.size (by simp)]
  simp

/-- An assignment agreeing with a later system gives a fresh input the value it was allocated
with. -/
theorem System.Agrees.input_push {s t : System} {asg : Assignment} {x : Fr}
    (h : { s with inputs := s.inputs.push x } ≤ t) (ht : t.Agrees asg) :
    asg (.inst s.inputs.size) = x := by
  have h' := ht.mono h
  rw [h'.1 s.inputs.size (by simp)]
  simp

end Circuit

end ZkPolicy
