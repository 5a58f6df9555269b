/-!
# BLAKE2b

The BLAKE2b hash of RFC 7693, unkeyed, with a digest of 1 to 64 bytes. The chain derives account
ids and the checksums of account addresses with it.

The message is cut into 128-byte blocks; each is read as sixteen little-endian words and folded
into the eight-word chaining value by the compression `compress`, which runs twelve rounds of
the mixing function `mix` over a sixteen-word working vector. The last block, zero-padded, is
compressed with the finalisation flag, and the counter gives the number of message bytes so far.
-/

namespace ZkPolicy

namespace Blake2b

/-- The initial chaining value (the first 64 bits of the fractional parts of the square roots of
the first eight primes). -/
def iv : Vector UInt64 8 :=
  #v[0x6a09e667f3bcc908, 0xbb67ae8584caa73b, 0x3c6ef372fe94f82b, 0xa54ff53a5f1d36f1,
     0x510e527fade682d1, 0x9b05688c2b3e6c1f, 0x1f83d9abfb41bd6b, 0x5be0cd19137e2179]

/-- The message schedule: round `r` reads the message words in the order of row `r mod 10`. -/
def sigma : Vector (Vector Nat 16) 10 :=
  #v[#v[0, 1, 2, 3, 4, 5, 6, 7, 8, 9, 10, 11, 12, 13, 14, 15],
     #v[14, 10, 4, 8, 9, 15, 13, 6, 1, 12, 0, 2, 11, 7, 5, 3],
     #v[11, 8, 12, 0, 5, 2, 15, 13, 10, 14, 3, 6, 7, 1, 9, 4],
     #v[7, 9, 3, 1, 13, 12, 11, 14, 2, 6, 5, 10, 4, 0, 15, 8],
     #v[9, 0, 5, 7, 2, 4, 10, 15, 14, 1, 11, 12, 6, 8, 3, 13],
     #v[2, 12, 6, 10, 0, 11, 8, 3, 4, 13, 7, 5, 15, 14, 1, 9],
     #v[12, 5, 1, 15, 14, 13, 4, 10, 0, 7, 6, 3, 9, 2, 8, 11],
     #v[13, 11, 7, 14, 12, 1, 3, 9, 5, 0, 15, 4, 8, 6, 2, 10],
     #v[6, 15, 14, 9, 11, 3, 0, 8, 12, 2, 13, 7, 1, 4, 10, 5],
     #v[10, 2, 8, 4, 7, 6, 1, 5, 15, 11, 9, 14, 3, 12, 13, 0]]

/-- Rotation of a word to the right. -/
def rotr (x : UInt64) (n : UInt64) : UInt64 := (x >>> n) ||| (x <<< (64 - n))

/-- The word at a lane of the working vector. -/
def lane (v : Vector UInt64 16) (i : Nat) : UInt64 := v.getD i 0

/-- The mixing function G on four lanes (each below 16) of the working vector, with two
message words. -/
def mix (v : Vector UInt64 16) (a b c d : Nat) (x y : UInt64) : Vector UInt64 16 :=
  let va := lane v a + lane v b + x
  let vd := rotr (lane v d ^^^ va) 32
  let vc := lane v c + vd
  let vb := rotr (lane v b ^^^ vc) 24
  let va := va + vb + y
  let vd := rotr (vd ^^^ va) 16
  let vc := vc + vd
  let vb := rotr (vb ^^^ vc) 63
  (((v.setIfInBounds a va).setIfInBounds b vb).setIfInBounds c vc).setIfInBounds d vd

/-- One round: G on the four columns, then on the four diagonals. -/
def round (m : Vector UInt64 16) (v : Vector UInt64 16) (r : Nat) : Vector UInt64 16 :=
  let s := sigma.getD (r % 10) (Vector.replicate 16 0)
  let w (i : Nat) := m.getD (s.getD i 0) 0
  let v := mix v 0 4 8 12 (w 0) (w 1)
  let v := mix v 1 5 9 13 (w 2) (w 3)
  let v := mix v 2 6 10 14 (w 4) (w 5)
  let v := mix v 3 7 11 15 (w 6) (w 7)
  let v := mix v 0 5 10 15 (w 8) (w 9)
  let v := mix v 1 6 11 12 (w 10) (w 11)
  let v := mix v 2 7 8 13 (w 12) (w 13)
  mix v 3 4 9 14 (w 14) (w 15)

/-- The word of eight little-endian bytes. -/
def wordLE (bytes : List UInt8) : UInt64 :=
  bytes.foldr (fun b acc => (acc <<< 8) ||| b.toUInt64) 0

/-- The eight little-endian bytes of a word. -/
def bytesLE (w : UInt64) : List UInt8 :=
  (List.range 8).map fun i => (w >>> (8 * i).toUInt64).toUInt8

/-- A block of 128 bytes (zero-padded) as sixteen words. -/
def blockWords (block : List UInt8) : Vector UInt64 16 :=
  Vector.ofFn fun i => wordLE ((block.drop (8 * i.val)).take 8 ++ List.replicate 8 0 |>.take 8)

/-- The compression F: folds one block into the chaining value. `t` counts the message bytes up
to the end of this block; `last` marks the final block. -/
def compress (h : Vector UInt64 8) (block : List UInt8) (t : Nat) (last : Bool) :
    Vector UInt64 8 :=
  let m := blockWords block
  let v := h ++ iv
  let v := v.setIfInBounds 12 (lane v 12 ^^^ t.toUInt64)
  let v := v.setIfInBounds 13 (lane v 13 ^^^ (t >>> 64).toUInt64)
  let v := if last then v.setIfInBounds 14 (lane v 14 ^^^ 0xFFFFFFFFFFFFFFFF) else v
  let v := (List.range 12).foldl (round m) v
  Vector.ofFn fun i => h.get i ^^^ lane v i.val ^^^ lane v (i.val + 8)

/-- Folds the message into the chaining value, 128 bytes at a time; `t` bytes came before. -/
def absorb (h : Vector UInt64 8) (t : Nat) (rest : List UInt8) : Vector UInt64 8 :=
  if rest.length ≤ 128 then compress h rest (t + rest.length) true
  else absorb (compress h (rest.take 128) (t + 128) false) (t + 128) (rest.drop 128)
termination_by rest.length
decreasing_by simp only [List.length_drop]; omega

/-- **The digest** of `outLen` bytes (1 to 64) of a message. -/
def hash (outLen : Nat) (message : List UInt8) : List UInt8 :=
  let h := iv.setIfInBounds 0 (iv.getD 0 0 ^^^ 0x01010000 ^^^ outLen.toUInt64)
  ((absorb h 0 message).toList.flatMap bytesLE).take outLen

/-- The 32-byte digest. -/
def hash256 (message : List UInt8) : List UInt8 := hash 32 message

/-- The 64-byte digest. -/
def hash512 (message : List UInt8) : List UInt8 := hash 64 message

end Blake2b

end ZkPolicy
