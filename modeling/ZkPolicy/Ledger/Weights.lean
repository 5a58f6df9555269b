import ZkPolicy.Ledger.Chain

/-!
# Call weights

The weight of a call is a base time plus a time per storage read and per storage write; its
proof size is zero. Two cost tables price the database: the reference database (25 µs a read,
100 µs a write, in picoseconds) and the test chain's, which charges nothing, so only the base
times remain.

Every call is a normal call that pays a fee, and its weight at dispatch is the reference one.
Sums saturate at `2⁶⁴ - 1`.
-/

namespace ZkPolicy

/-- A weight: time in picoseconds and proof size in bytes. -/
structure Weight where
  refTime : Nat
  proofSize : Nat := 0
deriving DecidableEq

/-- The largest weight component. -/
def Weight.limit : Nat := Nat.pow 2 64 - 1

/-- Adds two components, stopping at the limit. -/
def Weight.saturatingAdd (a b : Nat) : Nat := min (a + b) Weight.limit

/-- The price of storage access. -/
structure DbWeight where
  read : Nat
  write : Nat

/-- The reference database. -/
def DbWeight.reference : DbWeight := { read := 25_000_000, write := 100_000_000 }

/-- The test chain's database, which charges nothing. -/
def DbWeight.free : DbWeight := { read := 0, write := 0 }

/-- What a call costs: a base time and its storage accesses. -/
structure CallCost where
  base : Nat
  reads : Nat := 0
  writes : Nat := 0

/-- The weight of a call under a database price. -/
def CallCost.weight (db : DbWeight) (c : CallCost) : Weight :=
  { refTime := Weight.saturatingAdd (Weight.saturatingAdd c.base (db.read * c.reads))
      (db.write * c.writes) }

/-- The costs of the registry's calls, by call name, in order. -/
def CallCost.registry : List (String × CallCost) :=
  [("mint", { base := 21_300_000, reads := 3, writes := 2 }),
   ("revoke", { base := 16_800_000, reads := 1, writes := 1 }),
   ("set_open_issuer_mode", { base := 8_200_000, writes := 1 }),
   ("set_issuer", { base := 9_400_000, writes := 1 })]

/-- The costs of the verifier's calls, by call name, in order. -/
def CallCost.verifier : List (String × CallCost) :=
  [("verify_and_emit", { base := 512_000_000, reads := 6, writes := 1 }),
   ("set_require_issuer_allowlist", { base := 8_100_000, writes := 1 }),
   ("set_issuer_allowed", { base := 9_300_000, writes := 1 }),
   ("set_verification_key", { base := 104_000_000, writes := 1 })]

/-- The costs of a part's calls. -/
def CallCost.ofPallet : Pallet → List (String × CallCost)
  | .registry => CallCost.registry
  | .verifier => CallCost.verifier

/-- The class of a call. -/
inductive DispatchClass where
  | normal
  | operational
  | mandatory
deriving DecidableEq

/-- Whether a call pays a fee. -/
inductive Pays where
  | yes
  | no
deriving DecidableEq

/-- What the chain knows of a call before running it. -/
structure DispatchInfo where
  callWeight : Weight
  dispatchClass : DispatchClass := .normal
  paysFee : Pays := .yes

/-- The dispatch information of a call with the given cost. -/
def CallCost.dispatchInfo (c : CallCost) : DispatchInfo :=
  { callWeight := c.weight DbWeight.reference }

end ZkPolicy
