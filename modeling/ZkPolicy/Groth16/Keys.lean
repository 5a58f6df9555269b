import ZkPolicy.Bn254.G1
import ZkPolicy.Bn254.G2

/-!
# Verifying keys and proofs, and their compressed encodings

A Groth16 verifying key holds `α` in the first group, `β`, `γ`, `δ` in the second, and one
point of the first group per public input plus one for the constant. A proof is three points
`A`, `B`, `C`.

Encodings are compressed points in a row; a list is preceded by its length as an 8-byte
little-endian word. Reading validates every point and ignores bytes after the last one read.

* `VerifyingKey.inputCount` is the number of public inputs the key expects: one less than its
  list of input points, and zero for an empty list.
-/

namespace ZkPolicy

namespace Groth16

/-- A verifying key. -/
structure VerifyingKey where
  alpha : G1
  beta : G2
  gamma : G2
  delta : G2
  /-- The points for the constant one and each public input, in order. -/
  gammaAbc : List G1
deriving DecidableEq

/-- A proof. -/
structure Proof where
  a : G1
  b : G2
  c : G1
deriving DecidableEq

/-- Reads an 8-byte little-endian length from the front of the bytes. -/
def readLength? (bytes : List UInt8) : Option (Nat × List UInt8) :=
  if bytes.length < 8 then none else some (Residue.leNat (bytes.take 8), bytes.drop 8)

/-- A length as an 8-byte little-endian word. -/
def lengthBytes (n : Nat) : List UInt8 := Residue.leBytes n 8

/-- Reads a length-prefixed list of items. -/
def readList? {α : Type} (read : List UInt8 → Option (α × List UInt8)) (bytes : List UInt8) :
    Option (List α × List UInt8) := do
  let (n, rest) ← readLength? bytes
  Point.readMany read [] n rest

namespace VerifyingKey

/-- The number of public inputs the key expects. -/
def inputCount (vk : VerifyingKey) : Nat := vk.gammaAbc.length - 1

/-- The compressed encoding. -/
def toBytes (vk : VerifyingKey) : List UInt8 :=
  vk.alpha.toCompressed ++ vk.beta.toCompressed ++ vk.gamma.toCompressed ++
    vk.delta.toCompressed ++ lengthBytes vk.gammaAbc.length ++ vk.gammaAbc.flatMap Point.toCompressed

/-- Reads a key from the front of the bytes, validating every point. -/
def read? (bytes : List UInt8) : Option (VerifyingKey × List UInt8) := do
  let (alpha, bytes) ← G1.readCompressed? bytes
  let (beta, bytes) ← G2.readCompressed? bytes
  let (gamma, bytes) ← G2.readCompressed? bytes
  let (delta, bytes) ← G2.readCompressed? bytes
  let (gammaAbc, bytes) ← readList? G1.readCompressed? bytes
  pure (⟨alpha, beta, gamma, delta, gammaAbc⟩, bytes)

/-- Reads a key; bytes after it are ignored. -/
def ofBytes? (bytes : List UInt8) : Option VerifyingKey := (read? bytes).map (·.1)

end VerifyingKey

namespace Proof

/-- The compressed encoding: `A`, `B`, `C`. -/
def toBytes (p : Proof) : List UInt8 := p.a.toCompressed ++ p.b.toCompressed ++ p.c.toCompressed

/-- Reads a proof from the front of the bytes, validating every point. -/
def read? (bytes : List UInt8) : Option (Proof × List UInt8) := do
  let (a, bytes) ← G1.readCompressed? bytes
  let (b, bytes) ← G2.readCompressed? bytes
  let (c, bytes) ← G1.readCompressed? bytes
  pure (⟨a, b, c⟩, bytes)

/-- Reads a proof; bytes after it are ignored. -/
def ofBytes? (bytes : List UInt8) : Option Proof := (read? bytes).map (·.1)

/-- A proof on the wire: each point by its coordinates. -/
structure Wire where
  a : G1.Wire
  b : G2.Wire
  c : G1.Wire
deriving DecidableEq

/-- The wire form. -/
def toWire (p : Proof) : Wire := ⟨G1.toWire p.a, G2.toWire p.b, G1.toWire p.c⟩

/-- Reads the wire form; every point must be valid. -/
def ofWire? (w : Wire) : Option Proof := do
  pure ⟨← G1.ofWire? w.a, ← G2.ofWire? w.b, ← G1.ofWire? w.c⟩

end Proof

end Groth16

end ZkPolicy
