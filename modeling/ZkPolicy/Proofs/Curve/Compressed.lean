import Mathlib
import ZkPolicy.Ledger.Verifier
import ZkPolicy.Proofs.Field.SquareRoot
import ZkPolicy.Proofs.Encoding.Words

/-!
# Compressed points and keys read back what they write

A verifying key is stored as compressed points. A point is written as its abscissa, with the
flag `0x80` in the last byte when its ordinate is the larger root and `0x40` for the point at
infinity. This module shows that reading undoes writing, for every point on the curve, and
that reading yields nothing else; `Proofs/Groth16/KeyCodec` builds the keys' codec on it:

* `ShortWeierstrass.Laws`: what the codec needs of a coordinate field. Its encoding has `width`
  bytes, the last of which leaves both flag bits clear, and reads back; `sqrt?` finds a root of
  every square and returns only roots; a square has no roots but `±y`; and the order `lt` that
  tells `y` from `-y` is strict and total. Both fields of the curve satisfy them (`Fq.laws`,
  `Fq2.laws`), by the square roots of `Proofs/Field/SquareRoot`.
* `Point.readCompressed?_toCompressed`: under the laws, every point on the curve reads back from
  its compressed form, whatever bytes follow it; `Point.onCurve_of_readCompressed?`: every point
  read lies on the curve. In the second group the reader adds the subgroup check, so there a
  point reads back exactly when it is valid (`G2.readCompressed?_toCompressed_iff`).
* `G1.readCompressed?_toCompressed`, `G2.readCompressed?_toCompressed`: a valid point of either
  group reads back from its compressed form, and `G1.isValid_of_readCompressed?`,
  `G2.isValid_of_readCompressed?`: every point read is valid.
-/

namespace ZkPolicy

/-- **The laws of a coordinate field** on which the compressed codec relies. -/
structure ShortWeierstrass.Laws (F : Type) [ShortWeierstrass F] : Prop where
  length_encode : ∀ x : F, (encode x).length = width F
  /-- The last byte of an encoding leaves both flag bits clear. -/
  encode_eq : ∀ x : F, ∃ front last, encode x = front ++ [last] ∧ last < 0x40
  decode?_encode : ∀ x : F, decode? (encode x) = some x
  mul_self_of_sqrt? : ∀ {a c : F}, sqrt? a = some c → c * c = a
  sqrt?_of_mul_self : ∀ {a y : F}, y * y = a → ∃ c, sqrt? a = some c
  eq_or_eq_neg_of_mul_self_eq : ∀ {c y : F}, c * c = y * y → c = y ∨ c = -y
  neg_mul_neg : ∀ y : F, -y * -y = y * y
  neg_neg : ∀ y : F, -(-y) = y
  lt_asymm : ∀ {a b : F}, lt a b = true → lt b a = false
  eq_of_not_lt : ∀ {a b : F}, lt a b = false → lt b a = false → a = b

namespace Point

open ShortWeierstrass

/-- The flags of a last byte below `0x40`, alone or with one flag set, and its mask. -/
theorem flags_of_lt {last : UInt8} (h : last < 0x40) :
    last &&& 0x3f = last ∧ (last &&& largerFlag != 0) = false ∧
      (last &&& infinityFlag != 0) = false ∧
    (last ||| largerFlag) &&& 0x3f = last ∧ ((last ||| largerFlag) &&& largerFlag != 0) = true ∧
      ((last ||| largerFlag) &&& infinityFlag != 0) = false ∧
    (last ||| infinityFlag) &&& 0x3f = last ∧
      ((last ||| infinityFlag) &&& largerFlag != 0) = false ∧
      ((last ||| infinityFlag) &&& infinityFlag != 0) = true := by
  -- sixty-four bytes to check
  have hbytes : ∀ n : Fin 64, (UInt8.ofNat n &&& 0x3f = UInt8.ofNat n ∧
      (UInt8.ofNat n &&& largerFlag != 0) = false ∧
      (UInt8.ofNat n &&& infinityFlag != 0) = false ∧
    (UInt8.ofNat n ||| largerFlag) &&& 0x3f = UInt8.ofNat n ∧
      ((UInt8.ofNat n ||| largerFlag) &&& largerFlag != 0) = true ∧
      ((UInt8.ofNat n ||| largerFlag) &&& infinityFlag != 0) = false ∧
    (UInt8.ofNat n ||| infinityFlag) &&& 0x3f = UInt8.ofNat n ∧
      ((UInt8.ofNat n ||| infinityFlag) &&& largerFlag != 0) = false ∧
      ((UInt8.ofNat n ||| infinityFlag) &&& infinityFlag != 0) = true) := by
    decide
  have hn : last.toNat < 64 := by
    rw [UInt8.lt_iff_toNat_lt] at h
    exact h
  have := hbytes ⟨last.toNat, hn⟩
  rwa [Fin.val_mk, UInt8.ofNat_toNat] at this

theorem flagLast_append (front : List UInt8) (last flag : UInt8) :
    flagLast (front ++ [last]) flag = front ++ [last ||| flag] := by
  simp [flagLast]

variable {F : Type} [ShortWeierstrass F]

/-- **Reading a full chunk.** Once `width` bytes are there, the abscissa is read from them with
the flag bits masked, and the flags decide: both set is refused, the infinity flag gives the
point at infinity, and otherwise the point is recovered from its abscissa. -/
theorem readCompressed?_chunk {front : List UInt8} {last : UInt8} {x : F}
    (hlen : (front ++ [last]).length = width F) (hx : decode? (front ++ [last &&& 0x3f]) = some x)
    (rest : List UInt8) :
    readCompressed? (front ++ [last] ++ rest) =
      if (last &&& largerFlag != 0) && (last &&& infinityFlag != 0) then none
      else if last &&& infinityFlag != 0 then some (infinity, rest)
      else (ofX? x (last &&& largerFlag != 0)).map fun p => (p, rest) := by
  have htake : (front ++ [last] ++ rest).take (width F) = front ++ [last] := by
    rw [← hlen, List.take_left]
  have hdrop : (front ++ [last] ++ rest).drop (width F) = rest := by
    rw [← hlen, List.drop_left]
  simp only [readCompressed?, htake, hdrop, hlen, Nat.lt_irrefl, if_false, List.reverse_append,
    List.reverse_cons, List.reverse_nil, List.nil_append, List.singleton_append,
    List.reverse_reverse, hx, Option.bind_eq_bind, Option.bind_some]

variable (hF : Laws F)
include hF

/-- A point on the curve is found again from its abscissa and whether its ordinate is the larger
of the two roots. -/
theorem ofX?_of_onCurve {x y : F} (h : y * y = rhs x) : ofX? x (lt (-y) y) = some (affine x y) := by
  obtain ⟨c, hc⟩ := hF.sqrt?_of_mul_self h
  have hroots : roots x = some (if lt (-c) c then (-c, c) else (c, -c)) := by
    rw [roots, hc, Option.map_some]
  rw [ofX?, hroots, Option.map_some]
  -- the root found is `y` or `-y`; in both cases the flag picks `y`
  rcases hF.eq_or_eq_neg_of_mul_self_eq ((hF.mul_self_of_sqrt? hc).trans h.symm) with rfl | rfl
  · cases hl : lt (-c) c <;> simp
  · rw [hF.neg_neg]
    cases hl : lt (-y) y
    · cases hr : lt y (-y)
      · -- neither is larger: `y = -y`
        simp [hF.eq_of_not_lt hl hr]
      · simp
    · simp [hF.lt_asymm hl]

/-- **Compressed points read back.** Every point on the curve reads back from its compressed
form, whatever bytes follow it. -/
theorem readCompressed?_toCompressed [DecidableEq F] {P : Point F} (hP : P.onCurve = true)
    (rest : List UInt8) :
    readCompressed? (P.toCompressed ++ rest) = some (P, rest) := by
  cases P with
  | infinity =>
    obtain ⟨front, last, henc, hlast⟩ := hF.encode_eq (zero : F)
    obtain ⟨hmask, -, -, -, -, -, hmask', hlarger, hinf⟩ := flags_of_lt hlast
    have hlen : (front ++ [last ||| infinityFlag]).length = width F := by
      rw [← hF.length_encode zero, henc]
      simp
    have hx : decode? (front ++ [(last ||| infinityFlag) &&& 0x3f]) = some (zero : F) := by
      rw [hmask', ← henc, hF.decode?_encode]
    rw [toCompressed, henc, flagLast_append, readCompressed?_chunk hlen hx, hlarger, hinf]
    simp
  | affine x y =>
    have hy : y * y = rhs x := by simpa [onCurve] using hP
    obtain ⟨front, last, henc, hlast⟩ := hF.encode_eq x
    obtain ⟨hmask, hlarger, hinf, hmask', hlarger', hinf', -, -, -⟩ := flags_of_lt hlast
    have hlen : ∀ b : UInt8, (front ++ [b]).length = width F := by
      intro b
      rw [← hF.length_encode x, henc]
      simp
    have hofX := ofX?_of_onCurve hF hy
    cases hl : lt (-y) y
    · -- the smaller root: no flag
      have hx : decode? (front ++ [last &&& 0x3f]) = some x := by
        rw [hmask, ← henc, hF.decode?_encode]
      rw [hl] at hofX
      rw [toCompressed, hl, if_neg (by simp), henc, readCompressed?_chunk (hlen last) hx, hlarger,
        hinf, hofX]
      simp
    · -- the larger root: the flag `0x80`
      have hx : decode? (front ++ [(last ||| largerFlag) &&& 0x3f]) = some x := by
        rw [hmask', ← henc, hF.decode?_encode]
      rw [hl] at hofX
      rw [toCompressed, hl, if_pos rfl, henc, flagLast_append,
        readCompressed?_chunk (hlen _) hx, hlarger', hinf', hofX]
      simp

/-- A point found from its abscissa lies on the curve: both roots square to `x³ + b`. -/
theorem onCurve_of_ofX? [DecidableEq F] {x : F} {larger : Bool} {P : Point F}
    (h : ofX? x larger = some P) : P.onCurve = true := by
  obtain ⟨⟨small, large⟩, hroots, hP⟩ := Option.map_eq_some_iff.mp h
  obtain ⟨c, hc, hpair⟩ := Option.map_eq_some_iff.mp hroots
  have hcc := hF.mul_self_of_sqrt? hc
  have hroot : small * small = rhs x ∧ large * large = rhs x := by
    split at hpair <;> cases hpair <;>
      exact ⟨by simp only [hF.neg_mul_neg, hcc], by simp only [hF.neg_mul_neg, hcc]⟩
  subst hP
  cases larger <;> simp [onCurve, hroot.1, hroot.2]

/-- **Every point read lies on the curve.** -/
theorem onCurve_of_readCompressed? [DecidableEq F] {bytes rest : List UInt8} {P : Point F}
    (h : readCompressed? bytes = some (P, rest)) : P.onCurve = true := by
  unfold readCompressed? at h
  dsimp only at h
  split at h
  · cases h
  · split at h
    · cases h
    · simp only [Option.bind_eq_bind, Option.bind_eq_some_iff] at h
      obtain ⟨x, -, h⟩ := h
      -- both flags are refused, the infinity flag gives infinity, the rest goes through `ofX?`
      split at h
      · cases h
      · split at h
        · cases h
          rfl
        · obtain ⟨p, hp, hpr⟩ := Option.map_eq_some_iff.mp h
          cases hpr
          exact onCurve_of_ofX? hF hp

end Point

namespace Residue

variable {n : Nat}

/-- The last of `w + 1` low bytes of `k` is the byte of `k` at `256 ^ w`. -/
theorem leBytes_succ (k w : Nat) :
    leBytes k (w + 1) = leBytes k w ++ [UInt8.ofNat (k / Nat.pow 256 w % 256)] := by
  induction w generalizing k with
  | zero => simp [leBytes]
  | succ w ih =>
    have hdiv : k / 256 / Nat.pow 256 w = k / Nat.pow 256 (w + 1) := by
      rw [Nat.div_div_eq_div_mul, Nat.mul_comm]
      rfl
    show UInt8.ofNat (k % 256) :: leBytes (k / 256) (w + 1) =
      (UInt8.ofNat (k % 256) :: leBytes (k / 256) w) ++ _
    rw [ih, hdiv]
    rfl

/-- A residue of at most 32 bytes reads back from its canonical encoding. -/
theorem ofLE?_toLE (hn : n ≤ Nat.pow 256 32) (a : Residue n) : ofLE? a.toLE = some a := by
  rw [ofLE?_eq_some_iff, toLE, leNat_leBytes]
  exact Nat.mod_eq_of_lt (Nat.lt_of_lt_of_le a.isLt hn)

theorem lt_iff_val_lt {a b : Residue n} : a < b ↔ a.val < b.val := Iff.rfl

theorem val_inj {a b : Residue n} : a.val = b.val ↔ a = b := by
  obtain ⟨a, ha⟩ := a
  obtain ⟨b, hb⟩ := b
  simp

end Residue

/-- The top byte of a base-field element leaves the two flag bits clear: the modulus is below
`2 ^ 254`. -/
theorem Fq.lastByte_lt (a : Fq) : UInt8.ofNat (a.val / Nat.pow 256 31 % 256) < 0x40 := by
  have hp : Fq.modulus ≤ 64 * Nat.pow 256 31 := by decide
  have htop : a.val / Nat.pow 256 31 < 64 := by
    rw [Nat.div_lt_iff_lt_mul (by decide)]
    have := a.isLt
    omega
  generalize a.val / Nat.pow 256 31 = q at htop ⊢
  rw [UInt8.lt_iff_toNat_lt, UInt8.toNat_ofNat']
  show q % 256 % 256 < 64
  omega

/-- The base field satisfies the laws of the codec. -/
theorem Fq.laws : ShortWeierstrass.Laws Fq where
  length_encode x := Residue.length_leBytes x.val 32
  encode_eq x := ⟨_, _, Residue.leBytes_succ x.val 31, Fq.lastByte_lt x⟩
  decode?_encode x := Residue.ofLE?_toLE Fq.modulus_le x
  mul_self_of_sqrt? := Fq.mul_self_of_sqrt?
  sqrt?_of_mul_self := Fq.sqrt?_of_mul_self
  eq_or_eq_neg_of_mul_self_eq := Fq.eq_or_eq_neg_of_mul_self_eq
  neg_mul_neg y := neg_mul_neg y y
  neg_neg := neg_neg
  lt_asymm {a b} h := by
    have hab : a.val < b.val := of_decide_eq_true h
    exact decide_eq_false (Nat.lt_asymm hab)
  eq_of_not_lt {a b} hab hba := by
    have h1 : ¬a.val < b.val := of_decide_eq_false hab
    have h2 : ¬b.val < a.val := of_decide_eq_false hba
    rw [← Residue.val_inj]
    omega

/-- The quadratic extension satisfies the laws of the codec: its encoding is that of `c0`
followed by that of `c1`, and it is ordered by `c1` first. -/
theorem Fq2.laws : ShortWeierstrass.Laws Fq2 where
  length_encode x := by
    show (x.c0.toLE ++ x.c1.toLE).length = 64
    simp [Residue.toLE]
  encode_eq x := by
    obtain ⟨front, last, h, hlast⟩ := Fq.laws.encode_eq x.c1
    refine ⟨x.c0.toLE ++ front, last, ?_, hlast⟩
    show x.c0.toLE ++ x.c1.toLE = _
    rw [show x.c1.toLE = front ++ [last] from h, List.append_assoc]
  decode?_encode x := by
    have h32 : x.c0.toLE.length = 32 := Residue.length_leBytes _ 32
    show Fq2.decode? (x.c0.toLE ++ x.c1.toLE) = some x
    rw [Fq2.decode?, List.take_left' h32, List.drop_left' h32,
      Residue.ofLE?_toLE Fq.modulus_le, Residue.ofLE?_toLE Fq.modulus_le]
    rfl
  mul_self_of_sqrt? := Fq2.mul_self_of_sqrt?
  sqrt?_of_mul_self := Fq2.sqrt?_of_mul_self
  eq_or_eq_neg_of_mul_self_eq := Fq2.eq_or_eq_neg_of_mul_self_eq
  neg_mul_neg y := Fq2.toQuadratic_injective (by simp [Fq2.toQuadratic_mul, Fq2.toQuadratic_neg])
  neg_neg y := Fq2.ext (by simp) (by simp)
  lt_asymm {a b} h := by
    simp only [ShortWeierstrass.lt, Fq2.lt, Bool.or_eq_true, Bool.and_eq_true, decide_eq_true_eq,
      Residue.lt_iff_val_lt, ← Residue.val_inj] at h ⊢
    simp only [Bool.or_eq_false_iff, Bool.and_eq_false_iff, decide_eq_false_iff_not]
    omega
  eq_of_not_lt {a b} hab hba := by
    simp only [ShortWeierstrass.lt, Fq2.lt, Bool.or_eq_false_iff, Bool.and_eq_false_iff,
      decide_eq_false_iff_not, Residue.lt_iff_val_lt, ← Residue.val_inj] at hab hba
    exact Fq2.ext (Residue.val_inj.mp (by omega)) (Residue.val_inj.mp (by omega))

namespace G1

/-- A point of the first group reads back from its compressed form exactly when it is valid;
every point read is valid. -/
theorem isValid_of_readCompressed? {bytes rest : List UInt8} {P : G1}
    (h : readCompressed? bytes = some (P, rest)) : isValid P = true :=
  Point.onCurve_of_readCompressed? Fq.laws h

theorem readCompressed?_toCompressed {P : G1} (hP : isValid P = true) (rest : List UInt8) :
    readCompressed? (P.toCompressed ++ rest) = some (P, rest) :=
  Point.readCompressed?_toCompressed Fq.laws hP rest

theorem eq_of_readCompressed?_toCompressed {P P' : G1} (hP : isValid P = true)
    {rest r : List UInt8} (h : readCompressed? (P.toCompressed ++ rest) = some (P', r)) :
    P' = P ∧ r = rest := by
  rw [readCompressed?_toCompressed hP] at h
  cases h
  exact ⟨rfl, rfl⟩

end G1

namespace G2

/-- Every point of the second group that is read is valid: on the twist, and in the subgroup by
the reader's own check. -/
theorem isValid_of_readCompressed? {bytes rest : List UInt8} {P : G2}
    (h : readCompressed? bytes = some (P, rest)) : isValid P = true := by
  unfold readCompressed? at h
  simp only [Option.bind_eq_bind, Option.bind_eq_some_iff] at h
  obtain ⟨⟨p, r⟩, hp, h⟩ := h
  split at h
  · next hsub =>
    cases h
    rw [isValid, Point.onCurve_of_readCompressed? Fq2.laws hp, hsub, Bool.and_self]
  · cases h

/-- A point of the twist is read back from its compressed form exactly when it passes the
subgroup check, and nothing is read otherwise. -/
theorem readCompressed?_toCompressed_of_onCurve {P : G2} (hP : P.onCurve = true)
    (rest : List UInt8) :
    readCompressed? (P.toCompressed ++ rest) = if inSubgroup P then some (P, rest) else none := by
  rw [readCompressed?, Point.readCompressed?_toCompressed Fq2.laws hP]
  simp only [Option.bind_eq_bind, Option.bind_some]

theorem readCompressed?_toCompressed {P : G2} (hP : isValid P = true) (rest : List UInt8) :
    readCompressed? (P.toCompressed ++ rest) = some (P, rest) := by
  obtain ⟨hcurve, hsub⟩ := Bool.and_eq_true_iff.mp hP
  rw [readCompressed?_toCompressed_of_onCurve hcurve, if_pos hsub]

/-- What is read from the compressed form of a point of the twist is that point. -/
theorem eq_of_readCompressed?_toCompressed {P P' : G2} (hP : P.onCurve = true)
    {rest r : List UInt8} (h : readCompressed? (P.toCompressed ++ rest) = some (P', r)) :
    P' = P ∧ r = rest := by
  rw [readCompressed?_toCompressed_of_onCurve hP] at h
  split at h
  · cases h
    exact ⟨rfl, rfl⟩
  · cases h

/-- **Compressed points of the second group read back exactly when they are valid.** -/
theorem readCompressed?_toCompressed_iff (P : G2) (rest : List UInt8) :
    readCompressed? (P.toCompressed ++ rest) = some (P, rest) ↔ isValid P = true :=
  ⟨isValid_of_readCompressed?, fun hP => readCompressed?_toCompressed hP rest⟩

end G2

end ZkPolicy
