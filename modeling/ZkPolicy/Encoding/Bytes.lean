import ZkPolicy.Field.Residue

/-!
# Fixed-width byte words

Field elements, account identifiers, commitment roots, nullifiers and policy hashes all travel
as words of exactly 32 bytes. `Bytes32` is that word; a field element is written into it as its
canonical little-endian representative (`Residue.toBytes32`) and read back only if the number
is below the modulus (`Residue.ofBytes32?`). Reading assembles the number from four 64-bit
limbs of eight little-endian bytes each, least significant first.
-/

namespace ZkPolicy

/-- A word of exactly 32 bytes. -/
abbrev Bytes32 := Vector UInt8 32

namespace Bytes32

/-- The word of a 32-byte list, or `none` for any other length. -/
def ofList? (l : List UInt8) : Option Bytes32 :=
  if h : l.length = 32 then some ⟨l.toArray, by simpa using h⟩ else none

/-- The word whose every byte is `b`. -/
def fill (b : UInt8) : Bytes32 := Vector.replicate 32 b

end Bytes32

namespace Residue

variable {n : Nat}

@[simp] theorem length_leBytes (k width : Nat) : (leBytes k width).length = width := by
  induction width generalizing k with
  | zero => rfl
  | succ w ih => simp [leBytes, ih]

/-- The canonical encoding as a 32-byte word. -/
def toBytes32 (a : Residue n) : Bytes32 := ⟨(leBytes a.val 32).toArray, by simp⟩

/-- The first `count` limbs of a byte string: eight bytes each, read little-endian, least
significant limb first. -/
def leLimbs (bytes : List UInt8) : Nat → List UInt64
  | 0 => []
  | count + 1 => UInt64.ofNat (leNat (bytes.take 8)) :: leLimbs (bytes.drop 8) count

/-- The number of a row of 64-bit limbs, least significant first. -/
def limbsNat : List UInt64 → Nat
  | [] => 0
  | l :: rest => l.toNat + UInt64.size * limbsNat rest

/-- Reads a 32-byte word as the number of its four limbs; refuses a number that is not below
the modulus, never reduces it. -/
def ofBytes32? (b : Bytes32) : Option (Residue n) :=
  let v := limbsNat (leLimbs b.toList 4)
  if h : v < n then some ⟨v, h⟩ else none

end Residue

/-- A 64-bit word as a 32-byte word: its eight little-endian bytes, then zeros. -/
def Bytes32.ofWord (w : UInt64) : Bytes32 := ⟨(Residue.leBytes w.toNat 32).toArray, by simp⟩

end ZkPolicy
