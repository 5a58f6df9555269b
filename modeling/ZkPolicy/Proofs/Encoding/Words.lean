import ZkPolicy.Policy.Signals
import ZkPolicy.Bn254.Fq

/-!
# Canonical words

A field element travels as the 32 little-endian bytes of its representative, and a word is read
back only if its number is below the modulus. This module shows that the two directions are
inverse on canonical words, so that each element has exactly one word and each accepted word
one element:

* `Residue.leNat_leBytes` and `Residue.leBytes_leNat`: the little-endian number of `w` bytes
  and the `w` low bytes of a number undo each other, up to the width.
* `Residue.limbsNat_leLimbs`: a word's four 64-bit limbs make the number of its 32 bytes, so
  reading a word by its limbs is reading it as one little-endian number
  (`Residue.ofBytes32?_eq_ofLE?`).
* `Residue.ofBytes32?_eq_some_iff`: for a modulus that fits in 32 bytes, a word reads as `a`
  exactly when it is `a`'s word. Reading never reduces, so a word whose number is not below the
  modulus reads as nothing.
* `Residue.CanonicalWords` gathers these laws, and `field_words_canonical` states them for both
  fields of the curve, the scalar field and the base field; a policy hash is a word of the
  first kind and reads back as the policy's digest.
* `decodeSignals_eq_some_iff` and `encodeSignals_eq_ok_iff`: public signals read as a list of
  field elements exactly when they are the words of that list, and writing eleven elements gives
  their words.
-/

namespace ZkPolicy

namespace Residue

variable {n : Nat}

/-- The `w` low bytes of `k` spell `k` modulo `256 ^ w`. -/
theorem leNat_leBytes (k w : Nat) : leNat (leBytes k w) = k % Nat.pow 256 w := by
  induction w generalizing k with
  | zero => simp [leBytes, Nat.mod_one]
  | succ w ih =>
    have byte : (UInt8.ofNat (k % 256)).toNat = k % 256 := by simp
    have hpow : Nat.pow 256 (w + 1) = 256 * Nat.pow 256 w := Nat.mul_comm _ _
    rw [leBytes, leNat_cons, ih, byte, hpow, Nat.mod_mul]

/-- Bytes are the low bytes of their own number. -/
theorem leBytes_leNat (l : List UInt8) : leBytes (leNat l) l.length = l := by
  induction l with
  | nil => rfl
  | cons b rest ih =>
    have hb := b.toNat_lt
    have hlow : (b.toNat + 256 * leNat rest) % 256 = b.toNat := by omega
    have hhigh : (b.toNat + 256 * leNat rest) / 256 = leNat rest := by omega
    simp only [leNat_cons, List.length_cons, leBytes, hlow, hhigh, ih, UInt8.ofNat_toNat]

/-- A number of `w` bytes is below `256 ^ w`. -/
theorem leNat_lt (l : List UInt8) : leNat l < Nat.pow 256 l.length := by
  induction l with
  | nil => simp
  | cons b rest ih =>
    have hb := b.toNat_lt
    have hpow : Nat.pow 256 (rest.length + 1) = 256 * Nat.pow 256 rest.length := Nat.mul_comm _ _
    rw [leNat_cons, List.length_cons, hpow]
    omega

/-- The number of two strings in a row: the second one's digits come `256 ^ length` higher. -/
theorem leNat_append (l₁ l₂ : List UInt8) :
    leNat (l₁ ++ l₂) = leNat l₁ + Nat.pow 256 l₁.length * leNat l₂ := by
  induction l₁ with
  | nil => simp
  | cons b rest ih =>
    have hpow : Nat.pow 256 (rest.length + 1) = 256 * Nat.pow 256 rest.length := Nat.mul_comm _ _
    rw [List.cons_append, leNat_cons, leNat_cons, ih, List.length_cons, hpow, Nat.mul_add,
      Nat.mul_assoc]
    omega

/-- At most eight bytes fit one limb unchanged. -/
theorem toNat_limb (bytes : List UInt8) :
    (UInt64.ofNat (leNat (bytes.take 8))).toNat = leNat (bytes.take 8) := by
  have hlen : Nat.pow 256 (bytes.take 8).length ≤ UInt64.size :=
    Nat.pow_le_pow_right (by decide) (List.length_take_le 8 bytes)
  exact UInt64.toNat_ofNat_of_lt (Nat.lt_of_lt_of_le (leNat_lt _) hlen)

/-- **Limbs spell the bytes' number.** The limbs of a string of `8 · count` bytes make the
string's little-endian number. -/
theorem limbsNat_leLimbs (bytes : List UInt8) (count : Nat) (h : bytes.length = 8 * count) :
    limbsNat (leLimbs bytes count) = leNat bytes := by
  induction count generalizing bytes with
  | zero => simp_all [leLimbs, limbsNat]
  | succ count ih =>
    -- the first limb is the low eight bytes, the rest are the limbs of what follows them
    have hlow : (bytes.take 8).length = 8 := by simp [List.length_take]; omega
    have hrest : (bytes.drop 8).length = 8 * count := by simp [List.length_drop]; omega
    calc limbsNat (leLimbs bytes (count + 1))
        = leNat (bytes.take 8) + UInt64.size * leNat (bytes.drop 8) := by
          rw [leLimbs, limbsNat, toNat_limb, ih _ hrest]
      _ = leNat (bytes.take 8 ++ bytes.drop 8) := by rw [leNat_append, hlow]
      _ = leNat bytes := by rw [List.take_append_drop]

/-- Reading a word by its limbs is reading its bytes as one little-endian number. -/
theorem ofBytes32?_eq_ofLE? (w : Bytes32) :
    (ofBytes32? w : Option (Residue n)) = ofLE? w.toList := by
  have hlimbs := limbsNat_leLimbs w.toList 4 (by simp)
  simp only [ofBytes32?, ofLE?, hlimbs]

@[simp] theorem toList_toBytes32 (a : Residue n) : a.toBytes32.toList = leBytes a.val 32 := by
  simp [toBytes32, Vector.toList]

/-- A word reads as `a` exactly when its number is `a`'s. -/
theorem ofBytes32?_eq_some_iff_leNat (w : Bytes32) (a : Residue n) :
    ofBytes32? w = some a ↔ leNat w.toList = a.val := by
  rw [ofBytes32?_eq_ofLE?]
  exact ofLE?_eq_some_iff w.toList a

/-- A word that reads as `a` is `a`'s word: reading is one-to-one. -/
theorem toBytes32_of_ofBytes32? {w : Bytes32} {a : Residue n} (h : ofBytes32? w = some a) :
    a.toBytes32 = w := by
  rw [ofBytes32?_eq_some_iff_leNat] at h
  apply Vector.toList_inj.1
  have hw := leBytes_leNat w.toList
  rw [Vector.length_toList, h] at hw
  rw [toList_toBytes32, hw]

/-- A residue modulo a number of at most 32 bytes reads back from its word. -/
theorem ofBytes32?_toBytes32 (hn : n ≤ Nat.pow 256 32) (a : Residue n) :
    ofBytes32? a.toBytes32 = some a := by
  rw [ofBytes32?_eq_some_iff_leNat, toList_toBytes32, leNat_leBytes]
  exact Nat.mod_eq_of_lt (Nat.lt_of_lt_of_le a.isLt hn)

/-- **Words are canonical.** For a modulus of at most 32 bytes, a word reads as `a` exactly when
it is `a`'s word. -/
theorem ofBytes32?_eq_some_iff (hn : n ≤ Nat.pow 256 32) (w : Bytes32) (a : Residue n) :
    ofBytes32? w = some a ↔ w = a.toBytes32 := by
  constructor
  · intro h
    exact (toBytes32_of_ofBytes32? h).symm
  · rintro rfl
    exact ofBytes32?_toBytes32 hn a

/-- A word that reads as a residue has a number below the modulus. -/
theorem leNat_lt_of_ofBytes32? {w : Bytes32} {a : Residue n} (h : ofBytes32? w = some a) :
    leNat w.toList < n := by
  rw [ofBytes32?_eq_some_iff_leNat] at h
  rw [h]
  exact a.isLt

/-- A word is refused exactly when its number is not below the modulus. -/
theorem ofBytes32?_eq_none_iff (w : Bytes32) : ofBytes32? (n := n) w = none ↔ n ≤ leNat w.toList := by
  rw [ofBytes32?_eq_ofLE?]
  unfold ofLE?
  split
  · next h => simp only [reduceCtorEq, false_iff, Nat.not_le, h]
  · next h => simpa using h

/-- Two words that read as one residue are one word. -/
theorem eq_of_ofBytes32?_eq_some {w w' : Bytes32} {a : Residue n} (h : ofBytes32? w = some a)
    (h' : ofBytes32? w' = some a) : w = w' :=
  (toBytes32_of_ofBytes32? h).symm.trans (toBytes32_of_ofBytes32? h')

/-- **The laws of canonical words** modulo `n`. A word reads exactly when its number is below
`n`, and then as that very number; every residue reads back from its word, and a word that reads
is the word of what it reads as. So reading is one-to-one on the words it accepts, and writing
undoes it on both sides. -/
structure CanonicalWords (n : Nat) : Prop where
  isSome_iff : ∀ w : Bytes32, (ofBytes32? w : Option (Residue n)).isSome ↔ leNat w.toList < n
  val_eq : ∀ (w : Bytes32) (a : Residue n), ofBytes32? w = some a → a.val = leNat w.toList
  read_write : ∀ a : Residue n, ofBytes32? a.toBytes32 = some a
  write_read : ∀ (w : Bytes32) (a : Residue n), ofBytes32? w = some a → a.toBytes32 = w
  injective : ∀ (w w' : Bytes32) (a : Residue n),
    ofBytes32? w = some a → ofBytes32? w' = some a → w = w'

/-- Every modulus of at most 32 bytes has canonical words. -/
theorem canonicalWords (hn : n ≤ Nat.pow 256 32) : CanonicalWords n where
  isSome_iff w := by
    rw [Option.isSome_iff_ne_none, ne_eq, ofBytes32?_eq_none_iff, Nat.not_le]
  val_eq w a h := ((ofBytes32?_eq_some_iff_leNat w a).1 h).symm
  read_write := ofBytes32?_toBytes32 hn
  write_read _ _ := toBytes32_of_ofBytes32?
  injective _ _ _ := eq_of_ofBytes32?_eq_some

end Residue

theorem Fr.modulus_le : Fr.modulus ≤ Nat.pow 256 32 := by decide

theorem Fq.modulus_le : Fq.modulus ≤ Nat.pow 256 32 := by decide

/-- **Canonical field words.** The scalar field and the base field both read and write their
elements by the laws of canonical words: nothing is reduced, each element has one word and each
accepted word one element. A policy hash is such a word, so it always reads back as the policy's
digest. -/
theorem field_words_canonical :
    Residue.CanonicalWords Fr.modulus ∧ Residue.CanonicalWords Fq.modulus ∧
      ∀ p : Policy, Residue.ofBytes32? p.hash = some p.digest :=
  ⟨Residue.canonicalWords Fr.modulus_le, Residue.canonicalWords Fq.modulus_le,
    fun p => Residue.ofBytes32?_toBytes32 Fr.modulus_le p.digest⟩

theorem decodeSignals_cons (w : Bytes32) (ws : List Bytes32) (xs : List Fr) :
    decodeSignals (w :: ws) = some xs ↔
      ∃ x ys, Residue.ofBytes32? w = some x ∧ decodeSignals ws = some ys ∧ xs = x :: ys := by
  simp only [decodeSignals, List.mapM_cons, bind, pure, Option.bind_eq_some_iff,
    Option.some.injEq]
  constructor
  · rintro ⟨x, hx, ys, hys, rfl⟩
    exact ⟨x, ys, hx, hys, rfl⟩
  · rintro ⟨x, ys, hx, hys, rfl⟩
    exact ⟨x, hx, ys, hys, rfl⟩

/-- **Signals are canonical.** Words read as a list of scalars exactly when they are the words
of that list. -/
theorem decodeSignals_eq_some_iff (ws : List Bytes32) (xs : List Fr) :
    decodeSignals ws = some xs ↔ ws = xs.map Residue.toBytes32 := by
  induction ws generalizing xs with
  | nil => cases xs <;> simp [decodeSignals]
  | cons w ws ih =>
    simp only [decodeSignals_cons, ih, Residue.ofBytes32?_eq_some_iff Fr.modulus_le]
    cases xs with
    | nil => simp
    | cons x xs => simp

/-- Eleven words decode to eleven scalars. -/
theorem length_of_decodeSignals {ss : Vector Bytes32 Signal.count} {xs : List Fr}
    (h : decodeSignals ss.toList = some xs) : xs.length = Signal.count := by
  rw [← List.length_map Residue.toBytes32, ← (decodeSignals_eq_some_iff _ _).1 h,
    Vector.length_toList]

/-- Every word of a list that reads as scalars has a number below `r`. -/
theorem leNat_lt_of_decodeSignals {ws : List Bytes32} {xs : List Fr}
    (h : decodeSignals ws = some xs) : ∀ w ∈ ws, Residue.leNat w.toList < Fr.modulus := by
  rw [decodeSignals_eq_some_iff] at h
  subst h
  intro w hw
  obtain ⟨x, -, rfl⟩ := List.mem_map.1 hw
  exact Residue.leNat_lt_of_ofBytes32? (Residue.ofBytes32?_toBytes32 Fr.modulus_le x)

/-- Writing gives the words of exactly eleven scalars. -/
theorem encodeSignals_eq_ok_iff (xs : List Fr) (ws : List Bytes32) :
    encodeSignals xs = .ok ws ↔ xs.length = Signal.count ∧ ws = xs.map Residue.toBytes32 := by
  unfold encodeSignals
  by_cases h : xs.length = Signal.count
  · simp [h, eq_comm]
  · simp [h]

end ZkPolicy
