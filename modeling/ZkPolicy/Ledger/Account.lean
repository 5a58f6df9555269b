import ZkPolicy.Ledger.Credential
import ZkPolicy.Hash.Blake2b
import ZkPolicy.Encoding.Base58
import ZkPolicy.Encoding.Text

/-!
# Accounts

Account ids are 32-byte public keys. This module holds the four development accounts, the
accounts that benchmarks derive from a name and two numbers, and the text of an account: its
hex digits followed by the start of its address.

* An address is the base-58 text of the network prefix 42, the key, and a two-byte checksum:
  the start of the BLAKE2b-512 digest of `SS58PRE`, the prefix and the key.
* A derived account is the BLAKE2b-256 digest of the name (with its length in compact form)
  and the two numbers as little-endian 32-bit words.
-/

namespace ZkPolicy

namespace Keyring

/-- The development account Alice. -/
def alice : AccountId :=
  #v[0xd4, 0x35, 0x93, 0xc7, 0x15, 0xfd, 0xd3, 0x1c,
     0x61, 0x14, 0x1a, 0xbd, 0x04, 0xa9, 0x9f, 0xd6,
     0x82, 0x2c, 0x85, 0x58, 0x85, 0x4c, 0xcd, 0xe3,
     0x9a, 0x56, 0x84, 0xe7, 0xa5, 0x6d, 0xa2, 0x7d]

/-- The development account Bob. -/
def bob : AccountId :=
  #v[0x8e, 0xaf, 0x04, 0x15, 0x16, 0x87, 0x73, 0x63,
     0x26, 0xc9, 0xfe, 0xa1, 0x7e, 0x25, 0xfc, 0x52,
     0x87, 0x61, 0x36, 0x93, 0xc9, 0x12, 0x90, 0x9c,
     0xb2, 0x26, 0xaa, 0x47, 0x94, 0xf2, 0x6a, 0x48]

/-- The development account Charlie. -/
def charlie : AccountId :=
  #v[0x90, 0xb5, 0xab, 0x20, 0x5c, 0x69, 0x74, 0xc9,
     0xea, 0x84, 0x1b, 0xe6, 0x88, 0x86, 0x46, 0x33,
     0xdc, 0x9c, 0xa8, 0xa3, 0x57, 0x84, 0x3e, 0xea,
     0xcf, 0x23, 0x14, 0x64, 0x99, 0x65, 0xfe, 0x22]

/-- The development account Dave. -/
def dave : AccountId :=
  #v[0x30, 0x67, 0x21, 0x21, 0x1d, 0x54, 0x04, 0xbd,
     0x9d, 0xa8, 0x8e, 0x02, 0x04, 0x36, 0x0a, 0x1a,
     0x9a, 0xb8, 0xb8, 0x7c, 0x66, 0xc1, 0xbc, 0x2f,
     0xcd, 0xd3, 0x7f, 0x3c, 0x22, 0x22, 0xcc, 0x20]

end Keyring

namespace AccountId

/-- The length prefix of a byte string in compact form: one, two or four little-endian bytes
with the mode in the two low bits, or the count of value bytes after a mode byte. -/
def compactLength (n : Nat) : List UInt8 :=
  if n < Nat.pow 2 6 then [(n <<< 2).toUInt8]
  else if n < Nat.pow 2 14 then Blake2b.bytesLE ((n <<< 2) ||| 1).toUInt64 |>.take 2
  else if n < Nat.pow 2 30 then Blake2b.bytesLE ((n <<< 2) ||| 2).toUInt64 |>.take 4
  else
    let value := Blake2b.bytesLE n.toUInt64
    let size := 8 - (value.reverse.takeWhile (· = 0)).length
    ((size - 4) <<< 2 ||| 3).toUInt8 :: value.take size

/-- The four little-endian bytes of a 32-bit word. -/
def wordBytes (w : UInt32) : List UInt8 := (Blake2b.bytesLE w.toUInt64).take 4

/-- The account that benchmarks derive from a name, an index and a seed. -/
def derive (name : String) (index seed : UInt32) : AccountId :=
  let encoded := compactLength name.utf8ByteSize ++ name.toUTF8.toList ++ wordBytes index ++
    wordBytes seed
  Vector.ofFn fun i => (Blake2b.hash256 encoded).getD i.val 0

/-- The network prefix of generic addresses. -/
def addressPrefix : UInt8 := 42

/-- The address of an account: base-58 of prefix, key and checksum. -/
def address (a : AccountId) : String :=
  let body := addressPrefix :: a.toList
  let checksum := (Blake2b.hash512 ("SS58PRE".toUTF8.toList ++ body)).take 2
  Base58.encode (body ++ checksum)

/-- The text of an account: its hex digits and the first eight characters of its address. -/
def display (a : AccountId) : String :=
  Hex.encode a.toList ++ " (" ++ String.ofList ((address a).toList.take 8) ++ "...)"

end AccountId

end ZkPolicy
