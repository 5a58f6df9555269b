/-!
# Base58

The base-58 text of a byte string, as used for account addresses: the bytes are read as one
big-endian number, written in the 58 digits `1-9`, `A-Z`, `a-z` without the look-alikes `0`, `O`,
`I` and `l`; each leading zero byte becomes a leading `1`.
-/

namespace ZkPolicy

namespace Base58

/-- The 58 digits, in order of value. -/
def alphabet : List Char := "123456789ABCDEFGHJKLMNPQRSTUVWXYZabcdefghijkmnopqrstuvwxyz".toList

/-- The digit of a value below 58. -/
def digitChar (k : Nat) : Char := alphabet.getD k '1'

/-- The base-58 digits of a number, most significant first; none for zero. -/
def digits (n : Nat) : List Nat :=
  if n = 0 then [] else digits (n / 58) ++ [n % 58]
termination_by n
decreasing_by omega

/-- The base-58 text of a byte string. -/
def encode (bytes : List UInt8) : String :=
  let zeros := (bytes.takeWhile (· = 0)).length
  let n := bytes.foldl (fun acc b => acc * 256 + b.toNat) 0
  String.ofList (List.replicate zeros '1' ++ (digits n).map digitChar)

end Base58

end ZkPolicy
