import ZkPolicy.Policy.Basic
import ZkPolicy.Encoding.Bytes

/-!
# Public signals as bytes, and why a proof is refused

Public signals travel as eleven 32-byte words, each the canonical encoding of its field
element. Writing refuses a list of any other length; reading refuses a word whose number is not
below `r`.

* `ProverError` lists the reasons a proof is not produced, and `ProverError.message` their text.
* `encodeSignals` and `decodeSignals` are inverse to each other on canonical words.
* `Policy.hash` is the policy's digest as the word a presentation carries.
-/

namespace ZkPolicy

/-- Why no proof (or no signal encoding) is produced. -/
inductive ProverError
  /-- The witness violates the circuit; `index` is the first violated constraint. -/
  | violated (index : Nat)
  /-- The public signals do not number eleven. -/
  | signalCount (got : Nat)
deriving DecidableEq

namespace ProverError

/-- The text of the error. Both kinds read as an unsatisfied circuit. -/
def message : ProverError → String
  | .violated k =>
    "witness does not satisfy the policy circuit (first violation: " ++ toString k ++ ")"
  | .signalCount k =>
    "witness does not satisfy the policy circuit (first violation: expected " ++
      toString Signal.count ++ " public signals, got " ++ toString k ++ ")"

end ProverError

/-- Writes public signals as words; refuses a list that is not eleven long. -/
def encodeSignals (xs : List Fr) : Except ProverError (List Bytes32) :=
  if xs.length = Signal.count then .ok (xs.map Residue.toBytes32)
  else .error (.signalCount xs.length)

/-- Reads words as public signals; refuses if any word is not a canonical encoding. -/
def decodeSignals (ws : List Bytes32) : Option (List Fr) := ws.mapM Residue.ofBytes32?

/-- The policy hash: the digest of the policy's signals, written as its canonical word. -/
def Policy.hash (p : Policy) : Bytes32 := p.digest.toBytes32

end ZkPolicy
