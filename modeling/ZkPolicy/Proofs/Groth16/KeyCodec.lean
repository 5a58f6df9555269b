import Mathlib
import ZkPolicy.Proofs.Curve.Compressed
import ZkPolicy.Proofs.Ledger.StoredKey

/-!
# Verifying keys read back from their bytes

A verifying key is written as its four points `α, β, γ, δ` followed by the length-prefixed list
of its input points, each compressed. Reading validates every point, so the bytes of a key read
back as that key exactly when each of its points is valid, and then the verifier accepts them
exactly when the key expects the eleven public signals.

* `Point.readMany_flatMap`, `Groth16.readList?_append`: a row of items written one after
  another, with or without its length in front, reads back when each item does.
* `Groth16.VerifyingKey.isValid`: every point of the key is valid in its group.
* `Groth16.VerifyingKey.read?_toBytes`, `Groth16.VerifyingKey.isValid_of_read?`: the bytes of a
  valid key read back whatever follows them, and every key read is valid.
* `Verifier.acceptsKey_toBytes_iff`: the verifier accepts the bytes of a valid key exactly when
  the key's input count is the number of public signals.
-/

namespace ZkPolicy

namespace Point

/-- **A row of items reads back.** Items written one after another are read back in order, after
those already read, when each one reads back from its own bytes whatever follows them. -/
theorem readMany_flatMap {α : Type} {read : List UInt8 → Option (α × List UInt8)}
    {write : α → List UInt8} {as : List α}
    (hread : ∀ a ∈ as, ∀ rest, read (write a ++ rest) = some (a, rest))
    (acc : List α) (rest : List UInt8) :
    readMany read acc as.length (as.flatMap write ++ rest) = some (acc.reverse ++ as, rest) := by
  induction as generalizing acc with
  | nil => simp [readMany]
  | cons a as ih =>
    have ha := hread a List.mem_cons_self (as.flatMap write ++ rest)
    have htail : ∀ b ∈ as, ∀ rest, read (write b ++ rest) = some (b, rest) :=
      fun b hb => hread b (List.mem_cons_of_mem a hb)
    rw [List.length_cons, List.flatMap_cons, List.append_assoc, readMany, ha]
    simp only [ih htail (a :: acc), List.reverse_cons, List.append_assoc, List.singleton_append]

/-- Every item of a row read has the property that each single read ensures, when the items
read before it have it. -/
theorem forall_mem_of_readMany {α : Type} {read : List UInt8 → Option (α × List UInt8)}
    {Q : α → Prop} (hread : ∀ {bytes a rest}, read bytes = some (a, rest) → Q a)
    {count : Nat} {acc as : List α} {bytes rest : List UInt8} (hacc : ∀ a ∈ acc, Q a)
    (h : readMany read acc count bytes = some (as, rest)) : ∀ a ∈ as, Q a := by
  -- the row grows by one item per step; the induction carries the property of the items so far
  induction count generalizing acc bytes with
  | zero =>
    simp only [readMany, Option.some.injEq, Prod.mk.injEq] at h
    rw [← h.1]
    simpa using hacc
  | succ k ih =>
    rw [readMany] at h
    split at h
    · cases h
    · next a rest' hr =>
      refine ih (fun b hb => ?_) h
      rcases List.mem_cons.mp hb with rfl | hb
      · exact hread hr
      · exact hacc b hb

end Point

namespace Groth16

/-- A length below `2⁶⁴` reads back from its eight bytes. -/
theorem readLength?_lengthBytes {n : Nat} (hn : n < Nat.pow 256 8) (rest : List UInt8) :
    readLength? (lengthBytes n ++ rest) = some (n, rest) := by
  have hlen : (lengthBytes n).length = 8 := Residue.length_leBytes n 8
  rw [readLength?, if_neg (by simp [hlen]), List.take_left' hlen, List.drop_left' hlen,
    lengthBytes, Residue.leNat_leBytes, Nat.mod_eq_of_lt hn]

/-- **A length-prefixed list reads back** when each item does and the list has fewer than
`2⁶⁴` items. -/
theorem readList?_append {α : Type} {read : List UInt8 → Option (α × List UInt8)}
    {write : α → List UInt8} {as : List α}
    (hread : ∀ a ∈ as, ∀ rest, read (write a ++ rest) = some (a, rest))
    (hn : as.length < Nat.pow 256 8) (rest : List UInt8) :
    readList? read (lengthBytes as.length ++ (as.flatMap write ++ rest)) = some (as, rest) := by
  rw [readList?, readLength?_lengthBytes hn]
  simp only [Option.bind_eq_bind, Option.bind_some]
  rw [Point.readMany_flatMap hread]
  simp

/-- Every item of a length-prefixed list read has the property that each single read ensures. -/
theorem forall_mem_of_readList? {α : Type} {read : List UInt8 → Option (α × List UInt8)}
    {Q : α → Prop} (hread : ∀ {bytes a rest}, read bytes = some (a, rest) → Q a)
    {bytes rest : List UInt8} {as : List α} (h : readList? read bytes = some (as, rest)) :
    ∀ a ∈ as, Q a := by
  simp only [readList?, Option.bind_eq_bind, Option.bind_eq_some_iff] at h
  obtain ⟨⟨n, bytes'⟩, -, h⟩ := h
  exact Point.forall_mem_of_readMany hread (by simp) h

namespace VerifyingKey

/-- A key of valid points: `α` and the input points in the first group, `β, γ, δ` in the
second. -/
def isValid (vk : VerifyingKey) : Bool :=
  G1.isValid vk.alpha && G2.isValid vk.beta && G2.isValid vk.gamma && G2.isValid vk.delta &&
    vk.gammaAbc.all G1.isValid

theorem isValid_iff (vk : VerifyingKey) :
    vk.isValid = true ↔ G1.isValid vk.alpha = true ∧ G2.isValid vk.beta = true ∧
      G2.isValid vk.gamma = true ∧ G2.isValid vk.delta = true ∧
      ∀ p ∈ vk.gammaAbc, G1.isValid p = true := by
  simp only [isValid, Bool.and_eq_true, List.all_eq_true, and_assoc]

/-- **The bytes of a valid key read back**, whatever follows them, when it has fewer than `2⁶⁴`
input points. -/
theorem read?_toBytes {vk : VerifyingKey} (hvk : vk.isValid = true)
    (hlen : vk.gammaAbc.length < Nat.pow 256 8) (rest : List UInt8) :
    read? (vk.toBytes ++ rest) = some (vk, rest) := by
  obtain ⟨halpha, hbeta, hgamma, hdelta, habc⟩ := (isValid_iff vk).mp hvk
  have hlist := readList?_append (fun p hp => G1.readCompressed?_toCompressed (habc p hp)) hlen rest
  simp only [toBytes, read?, List.append_assoc, G1.readCompressed?_toCompressed halpha,
    G2.readCompressed?_toCompressed hbeta, G2.readCompressed?_toCompressed hgamma,
    G2.readCompressed?_toCompressed hdelta, hlist, Option.bind_eq_bind, Option.bind_some,
    Option.pure_def]

/-- Every point of the key lies on its curve; in the first group that is validity. -/
def onCurve (vk : VerifyingKey) : Bool :=
  G1.isValid vk.alpha && vk.beta.onCurve && vk.gamma.onCurve && vk.delta.onCurve &&
    vk.gammaAbc.all G1.isValid

theorem onCurve_iff (vk : VerifyingKey) :
    vk.onCurve = true ↔ G1.isValid vk.alpha = true ∧ vk.beta.onCurve = true ∧
      vk.gamma.onCurve = true ∧ vk.delta.onCurve = true ∧
      ∀ p ∈ vk.gammaAbc, G1.isValid p = true := by
  simp only [onCurve, Bool.and_eq_true, List.all_eq_true, and_assoc]

/-- A key on the curves is valid exactly when its three points of the second group pass the
subgroup check. -/
theorem isValid_iff_of_onCurve {vk : VerifyingKey} (hvk : vk.onCurve = true) :
    vk.isValid = true ↔ G2.inSubgroup vk.beta = true ∧ G2.inSubgroup vk.gamma = true ∧
      G2.inSubgroup vk.delta = true := by
  obtain ⟨ha, hb, hc, hd, habc⟩ := (onCurve_iff vk).mp hvk
  simp only [isValid_iff, G2.isValid, Bool.and_eq_true, ha, hb, hc, hd, iff_true_intro habc,
    true_and, and_true]

/-- **What is read from the bytes of a key on the curves is that key.** Each point reads back as
itself or not at all, so the key that is read, if any, is the key that was written. -/
theorem eq_of_read?_toBytes {vk vk' : VerifyingKey} (hvk : vk.onCurve = true)
    (hlen : vk.gammaAbc.length < Nat.pow 256 8) {rest r : List UInt8}
    (h : read? (vk.toBytes ++ rest) = some (vk', r)) : vk' = vk ∧ r = rest := by
  obtain ⟨ha, hb, hc, hd, habc⟩ := (onCurve_iff vk).mp hvk
  simp only [read?, Option.bind_eq_bind, Option.bind_eq_some_iff] at h
  obtain ⟨⟨alpha, b₁⟩, halpha, ⟨beta, b₂⟩, hbeta, ⟨gamma, b₃⟩, hgamma, ⟨delta, b₄⟩, hdelta,
    ⟨abc, b₅⟩, habc', h⟩ := h
  -- the points are read one after the other, each from its own bytes
  simp only [toBytes, List.append_assoc] at halpha
  obtain ⟨rfl, rfl⟩ := G1.eq_of_readCompressed?_toCompressed ha halpha
  obtain ⟨rfl, rfl⟩ := G2.eq_of_readCompressed?_toCompressed hb hbeta
  obtain ⟨rfl, rfl⟩ := G2.eq_of_readCompressed?_toCompressed hc hgamma
  obtain ⟨rfl, rfl⟩ := G2.eq_of_readCompressed?_toCompressed hd hdelta
  rw [readList?_append (fun p hp => G1.readCompressed?_toCompressed (habc p hp)) hlen rest] at habc'
  cases habc'
  cases h
  exact ⟨rfl, rfl⟩

/-- **Every key read is valid**: reading checks each of its points. -/
theorem isValid_of_read? {bytes rest : List UInt8} {vk : VerifyingKey}
    (h : read? bytes = some (vk, rest)) : vk.isValid = true := by
  simp only [read?, Option.bind_eq_bind, Option.bind_eq_some_iff] at h
  obtain ⟨⟨alpha, b₁⟩, halpha, ⟨beta, b₂⟩, hbeta, ⟨gamma, b₃⟩, hgamma, ⟨delta, b₄⟩, hdelta,
    ⟨abc, b₅⟩, habc, h⟩ := h
  cases h
  exact (isValid_iff _).mpr ⟨G1.isValid_of_readCompressed? halpha,
    G2.isValid_of_readCompressed? hbeta, G2.isValid_of_readCompressed? hgamma,
    G2.isValid_of_readCompressed? hdelta,
    forall_mem_of_readList? G1.isValid_of_readCompressed? habc⟩

theorem isValid_of_ofBytes? {bytes : List UInt8} {vk : VerifyingKey}
    (h : ofBytes? bytes = some vk) : vk.isValid = true := by
  obtain ⟨⟨vk', rest⟩, hread, rfl⟩ := Option.map_eq_some_iff.mp h
  exact isValid_of_read? hread

/-- **A key reads back from its bytes exactly when its points are valid**, for every key of
fewer than `2⁶⁴` input points. -/
theorem ofBytes?_toBytes_iff {vk : VerifyingKey} (hlen : vk.gammaAbc.length < Nat.pow 256 8) :
    ofBytes? vk.toBytes = some vk ↔ vk.isValid = true := by
  refine ⟨isValid_of_ofBytes?, fun hvk => ?_⟩
  have hread := read?_toBytes hvk hlen []
  rw [List.append_nil] at hread
  rw [ofBytes?, hread, Option.map_some]

end VerifyingKey

end Groth16

namespace Verifier

open Groth16

/-- **The verifier accepts the bytes of a valid key exactly when the key expects the eleven
public signals.** -/
theorem acceptsKey_toBytes_iff {vk : VerifyingKey} (hvk : vk.isValid = true)
    (hlen : vk.gammaAbc.length < Nat.pow 256 8) :
    acceptsKey vk.toBytes = true ↔ vk.inputCount = Signal.count := by
  rw [acceptsKey_iff, (VerifyingKey.ofBytes?_toBytes_iff hlen).mpr hvk]
  constructor
  · rintro ⟨vk', hvk', hcount⟩
    cases hvk'
    exact hcount
  · intro hcount
    exact ⟨vk, rfl, hcount⟩

/-- **The verifier accepts the bytes of a key on the curves exactly when the key is valid and
expects the eleven public signals.** -/
theorem acceptsKey_toBytes_iff_of_onCurve {vk : VerifyingKey} (hvk : vk.onCurve = true)
    (hlen : vk.gammaAbc.length < Nat.pow 256 8) :
    acceptsKey vk.toBytes = true ↔ vk.isValid = true ∧ vk.inputCount = Signal.count := by
  constructor
  · intro h
    obtain ⟨vk', hread, hcount⟩ := (acceptsKey_iff _).mp h
    obtain ⟨⟨vk'', r⟩, hread', rfl⟩ := Option.map_eq_some_iff.mp hread
    rw [← List.append_nil vk.toBytes] at hread'
    obtain ⟨rfl, -⟩ := VerifyingKey.eq_of_read?_toBytes hvk hlen hread'
    exact ⟨VerifyingKey.isValid_of_read? hread', hcount⟩
  · rintro ⟨hvalid, hcount⟩
    exact (acceptsKey_toBytes_iff hvalid hlen).mpr hcount

end Verifier

end ZkPolicy
