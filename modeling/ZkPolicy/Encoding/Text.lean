/-!
# Numbers and byte strings as text

The requests and answers of the library carry byte strings as hexadecimal text and 64-bit
words as decimal text.

* `Hex.decode?` reads hexadecimal text in either case, with an optional `0x` in front, two
  digits per byte; `Hex.encode` writes lower case without a prefix.
* `Word.ofDecimal?` reads a nonempty string of decimal digits whose value fits 64 bits.
-/

namespace ZkPolicy

namespace Hex

/-- The value of a hexadecimal digit of either case. -/
def digit? (c : Char) : Option Nat :=
  if '0' ≤ c ∧ c ≤ '9' then some (c.toNat - '0'.toNat)
  else if 'a' ≤ c ∧ c ≤ 'f' then some (c.toNat - 'a'.toNat + 10)
  else if 'A' ≤ c ∧ c ≤ 'F' then some (c.toNat - 'A'.toNat + 10)
  else none

/-- Pairs of digits as bytes, the first digit of each pair the more significant. -/
def bytesOfDigits : List Char → Option (List UInt8)
  | [] => some []
  | [_] => none
  | hi :: lo :: rest => do
    let h ← digit? hi
    let l ← digit? lo
    let tail ← bytesOfDigits rest
    pure (UInt8.ofNat (16 * h + l) :: tail)

/-- Reads hexadecimal text, with or without a leading `0x`. -/
def decode? (s : String) : Option (List UInt8) :=
  match s.toList with
  | '0' :: 'x' :: rest => bytesOfDigits rest
  | cs => bytesOfDigits cs

/-- The lower-case digit of a value below 16. -/
def digitChar (k : Nat) : Char :=
  if k < 10 then Char.ofNat ('0'.toNat + k) else Char.ofNat ('a'.toNat + k - 10)

/-- Writes a byte string as lower-case hexadecimal text, two digits per byte. -/
def encode (bytes : List UInt8) : String :=
  String.ofList (bytes.flatMap fun b => [digitChar (b.toNat / 16), digitChar (b.toNat % 16)])

end Hex

namespace Word

/-- The value of decimal digits, most significant first, after `acc`. -/
def decimalValue (acc : Nat) : List Char → Option Nat
  | [] => some acc
  | c :: rest =>
    if '0' ≤ c ∧ c ≤ '9' then decimalValue (10 * acc + (c.toNat - '0'.toNat)) rest else none

/-- Reads a nonempty string of decimal digits whose value is below `2 ^ 64`. -/
def ofDecimal? (s : String) : Option UInt64 :=
  match s.toList with
  | [] => none
  | cs => do
    let k ← decimalValue 0 cs
    if k < Nat.pow 2 64 then some (UInt64.ofNat k) else none

end Word

end ZkPolicy
