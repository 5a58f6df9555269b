import ZkPolicy.Bn254.Fq
import ZkPolicy.Bn254.Fq12
import ZkPolicy.Bn254.Fq2
import ZkPolicy.Bn254.Fq6
import ZkPolicy.Bn254.Fr
import ZkPolicy.Bn254.G1
import ZkPolicy.Bn254.G2
import ZkPolicy.Bn254.Pairing
import ZkPolicy.Circuit.Boolean
import ZkPolicy.Circuit.FieldVar
import ZkPolicy.Circuit.LinComb
import ZkPolicy.Circuit.Sponge
import ZkPolicy.Circuit.System
import ZkPolicy.Curve.Compressed
import ZkPolicy.Curve.Weierstrass
import ZkPolicy.Encoding.Base58
import ZkPolicy.Encoding.Bytes
import ZkPolicy.Encoding.Text
import ZkPolicy.Field.Power
import ZkPolicy.Field.Residue
import ZkPolicy.Groth16.Domain
import ZkPolicy.Groth16.Keys
import ZkPolicy.Groth16.Prove
import ZkPolicy.Groth16.Qap
import ZkPolicy.Groth16.Setup
import ZkPolicy.Groth16.Verify
import ZkPolicy.Hash.Blake2b
import ZkPolicy.Ledger.Account
import ZkPolicy.Ledger.Benchmark
import ZkPolicy.Ledger.Chain
import ZkPolicy.Ledger.Credential
import ZkPolicy.Ledger.Event
import ZkPolicy.Ledger.Registry
import ZkPolicy.Ledger.Sample
import ZkPolicy.Ledger.Scenario
import ZkPolicy.Ledger.Table
import ZkPolicy.Ledger.Verifier
import ZkPolicy.Ledger.Weights
import ZkPolicy.Policy.Basic
import ZkPolicy.Policy.Circuit
import ZkPolicy.Policy.Prover
import ZkPolicy.Policy.Signals
import ZkPolicy.Poseidon.Grain
import ZkPolicy.Poseidon.Permutation
import ZkPolicy.Poseidon.Sponge
import ZkPolicy.Presentation.Verify
import ZkPolicy.Proofs.Circuit.Assignment
import ZkPolicy.Proofs.Circuit.Boolean
import ZkPolicy.Proofs.Circuit.FieldVar
import ZkPolicy.Proofs.Circuit.Sponge
import ZkPolicy.Proofs.Circuit.SpongeCost
import ZkPolicy.Proofs.Field.Prime
import ZkPolicy.Proofs.Field.Ring
import ZkPolicy.Proofs.Field.SquareRoot
import ZkPolicy.Proofs.Curve.Compressed
import ZkPolicy.Proofs.Curve.GroupLaw
import ZkPolicy.Proofs.Groth16.KeyCodec
import ZkPolicy.Proofs.Groth16.SetupKey
import ZkPolicy.Proofs.Ledger.History
import ZkPolicy.Proofs.Ledger.Nullifiers
import ZkPolicy.Proofs.Ledger.Presentation
import ZkPolicy.Proofs.Ledger.Revocation
import ZkPolicy.Random.ChaCha
import ZkPolicy.Random.Generator
import ZkPolicy.Random.Sample
import ZkPolicy.Proofs.Encoding.Words
import ZkPolicy.Proofs.Ledger.Acceptance
import ZkPolicy.Proofs.Presentation.Refinement
import ZkPolicy.Proofs.Circuit.Checks
import ZkPolicy.Proofs.Circuit.Gates
import ZkPolicy.Proofs.Circuit.Policy
import ZkPolicy.Proofs.Policy.Prover
import ZkPolicy.Proofs.Ledger.StoredKey
import ZkPolicy.Proofs.Circuit.Shape
import ZkPolicy.Proofs.Curve.Wire
import ZkPolicy.Proofs.Ledger.Minting
import ZkPolicy.Proofs.Ledger.Frames
import ZkPolicy.Proofs.Ledger.Commutation
import ZkPolicy.Proofs.Circuit.BitBudget
import ZkPolicy.Proofs.Circuit.Absorb
import ZkPolicy.Proofs.Circuit.Witnesses
import ZkPolicy.Proofs.Curve.Jacobian
import ZkPolicy.Proofs.Curve.TwistOrder
import ZkPolicy.Proofs.Groth16.PolicyKey
