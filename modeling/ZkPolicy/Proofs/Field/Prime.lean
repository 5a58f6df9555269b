import Mathlib
import ZkPolicy.Bn254.Fq
import ZkPolicy.Bn254.Fr

/-!
# The moduli of both fields are prime

The circuit's booleanity and nonzero gadgets are only sound over a field: `x · (1 - x) = 0`
forces a bit only without zero divisors, and a nonzero value has the inverse its gadget asks for
only modulo a prime. The curve codecs need the same of the base field: a square has exactly the
two roots `±y`, and `a ^ ((p + 1) / 4)` finds one of them. This module proves `r` and `p` prime.

The proof is a Pratt certificate: a list of numbers, each with a witness `a` for Lucas's test
(`lucas_primality`: `a^(p-1) ≡ 1` while `a^((p-1)/q) ≢ 1` for every prime factor `q` of
`p - 1`) and the factorisation of `p - 1`. `Lucas.certified` walks the list and keeps the
numbers whose test passes with all factors already kept, so that every kept number is prime
(`Lucas.prime_of_mem_certified`); the kernel then only has to evaluate the walk on the
certificate of `r`, which takes a few thousand modular multiplications.

The same walk proves prime the four factors of the cofactor `h` of the twist's subgroup
(`G2.prime_of_mem_cofactorPrimes`), which pin down the order of a point of the twist.
-/

namespace ZkPolicy

namespace Lucas

/-- `b ^ e % m` by repeated squaring over the `width` lowest bits of `e`, the lowest first. -/
def powMod (m : Nat) : Nat → Nat → Nat → Nat
  | 0, _, _ => 1 % m
  | width + 1, b, e => (if e % 2 = 0 then 1 else b) * powMod m width (b * b % m) (e / 2) % m

/-- Repeated squaring is the power once the exponent fits in `width` bits. -/
theorem powMod_eq (m width b e : Nat) (h : e < Nat.pow 2 width) :
    powMod m width b e = b ^ e % m := by
  induction width generalizing b e with
  | zero =>
    obtain rfl : e = 0 := by simpa using h
    simp [powMod]
  | succ w ih =>
    have hhalf : e / 2 < Nat.pow 2 w := by
      have hpow : Nat.pow 2 (w + 1) = Nat.pow 2 w * 2 := rfl
      omega
    -- the lowest bit of the exponent contributes `b` or `1`, the others `(b · b)^(e/2)`
    have hsplit : b ^ e = (if e % 2 = 0 then 1 else b) * (b * b) ^ (e / 2) := by
      conv_lhs => rw [← Nat.div_add_mod e 2]
      rw [pow_add, pow_mul, ← sq, mul_comm]
      rcases Nat.mod_two_eq_zero_or_one e with h0 | h1 <;> simp [*]
    rw [powMod, ih _ _ hhalf, hsplit, Nat.mul_mod, Nat.mod_mod, ← Nat.pow_mod, ← Nat.mul_mod]

/-- A line of a certificate: the number `p`, Lucas's witness `a`, and `p - 1` factored into
primes with their multiplicities. -/
structure Entry where
  p : Nat
  a : Nat
  factors : List (Nat × Nat)

/-- Lucas's test of one line over exponents of `width` bits, with the factors looked up among
the numbers `known` to be prime. -/
def Entry.passes (width : Nat) (known : List Nat) (e : Entry) : Bool :=
  decide (2 ≤ e.p) && decide (e.p - 1 < Nat.pow 2 width) &&
    e.factors.all (fun f => known.contains f.1) &&
    ((e.factors.map fun f => Nat.pow f.1 f.2).prod == e.p - 1) &&
    powMod e.p width e.a (e.p - 1) == 1 &&
    e.factors.all fun f => powMod e.p width e.a ((e.p - 1) / f.1) != 1

/-- Lucas's congruences in `ZMod p`, as remainders of natural numbers. -/
theorem natCast_pow_eq_one_iff {p : Nat} (hp : 2 ≤ p) (a k : Nat) :
    (a : ZMod p) ^ k = 1 ↔ a ^ k % p = 1 := by
  rw [← Nat.cast_pow, ← Nat.cast_one, ZMod.natCast_eq_natCast_iff',
    Nat.one_mod_eq_one.mpr (by omega)]

/-- A line that passes the test, with all the numbers it looks factors up in prime, is prime. -/
theorem Entry.prime_of_passes {width : Nat} {known : List Nat} {e : Entry}
    (hknown : ∀ q ∈ known, q.Prime) (h : e.passes width known = true) : e.p.Prime := by
  simp only [Entry.passes, Bool.and_eq_true, decide_eq_true_eq, List.all_eq_true, beq_iff_eq,
    bne_iff_ne, ne_eq, List.contains_iff_mem] at h
  obtain ⟨⟨⟨⟨⟨h2, hwidth⟩, hfs⟩, hprod⟩, hfull⟩, hpart⟩ := h
  refine lucas_primality e.p (e.a : ZMod e.p) ?_ ?_
  · rw [natCast_pow_eq_one_iff h2, ← powMod_eq e.p width e.a _ hwidth]
    exact hfull
  · intro q hq hdvd
    -- a prime factor of `p - 1` divides one of the listed prime powers, so it is listed
    rw [← hprod] at hdvd
    obtain ⟨x, hx, hqx⟩ := (Prime.dvd_prod_iff hq.prime).1 hdvd
    obtain ⟨f, hf, rfl⟩ := List.mem_map.1 hx
    have hfq : q = f.1 :=
      (Nat.prime_dvd_prime_iff_eq hq (hknown _ (hfs f hf))).1 (hq.dvd_of_dvd_pow hqx)
    subst hfq
    have hle : (e.p - 1) / f.1 < Nat.pow 2 width :=
      Nat.lt_of_le_of_lt (Nat.div_le_self _ _) hwidth
    rw [ne_eq, natCast_pow_eq_one_iff h2, ← powMod_eq e.p width e.a _ hle]
    exact hpart f hf

/-- The numbers a certificate proves prime, starting from `known`: a line is kept when it
passes the test against the numbers kept before it, and skipped otherwise. -/
def certified (width : Nat) (known : List Nat) (es : List Entry) : List Nat :=
  es.foldl (fun known e => if e.passes width known then e.p :: known else known) known

/-- **Soundness of certificates.** Every number a certificate keeps is prime. -/
theorem prime_of_mem_certified {width : Nat} (es : List Entry) {known : List Nat}
    (hknown : ∀ q ∈ known, q.Prime) {p : Nat} (hp : p ∈ certified width known es) :
    p.Prime := by
  induction es generalizing known with
  | nil => exact hknown p hp
  | cons e es ih =>
    -- the walk keeps its invariant: every number kept so far is prime
    have hstep : ∀ q ∈ (if e.passes width known then e.p :: known else known), q.Prime := by
      split
      · next he =>
        intro q hq
        rcases List.mem_cons.1 hq with rfl | hq
        · exact e.prime_of_passes hknown he
        · exact hknown q hq
      · exact hknown
    exact ih hstep hp

/-- A Pratt certificate of `r`, the prime factors of each `p - 1` certified by earlier lines. -/
def frCertificate : List Entry :=
  [⟨2, 1, []⟩, ⟨3, 2, [(2, 1)]⟩, ⟨5, 2, [(2, 2)]⟩, ⟨7, 3, [(2, 1), (3, 1)]⟩,
   ⟨11, 2, [(2, 1), (5, 1)]⟩, ⟨13, 2, [(2, 2), (3, 1)]⟩, ⟨17, 3, [(2, 4)]⟩,
   ⟨19, 2, [(2, 1), (3, 2)]⟩, ⟨23, 5, [(2, 1), (11, 1)]⟩, ⟨29, 2, [(2, 2), (7, 1)]⟩,
   ⟨31, 3, [(2, 1), (3, 1), (5, 1)]⟩, ⟨37, 2, [(2, 2), (3, 2)]⟩, ⟨41, 6, [(2, 3), (5, 1)]⟩,
   ⟨47, 5, [(2, 1), (23, 1)]⟩, ⟨53, 2, [(2, 2), (13, 1)]⟩, ⟨71, 7, [(2, 1), (5, 1), (7, 1)]⟩,
   ⟨83, 2, [(2, 1), (41, 1)]⟩, ⟨107, 2, [(2, 1), (53, 1)]⟩, ⟨137, 3, [(2, 3), (17, 1)]⟩,
   ⟨223, 3, [(2, 1), (3, 1), (37, 1)]⟩, ⟨229, 6, [(2, 2), (3, 1), (19, 1)]⟩,
   ⟨379, 2, [(2, 1), (3, 3), (7, 1)]⟩, ⟨409, 21, [(2, 3), (3, 1), (17, 1)]⟩,
   ⟨449, 3, [(2, 6), (7, 1)]⟩, ⟨491, 2, [(2, 1), (5, 1), (7, 2)]⟩,
   ⟨661, 2, [(2, 2), (3, 1), (5, 1), (11, 1)]⟩, ⟨823, 3, [(2, 1), (3, 1), (137, 1)]⟩,
   ⟨853, 2, [(2, 2), (3, 1), (71, 1)]⟩, ⟨983, 5, [(2, 1), (491, 1)]⟩,
   ⟨1637, 2, [(2, 2), (409, 1)]⟩, ⟨3691, 2, [(2, 1), (3, 2), (5, 1), (41, 1)]⟩,
   ⟨4999, 3, [(2, 1), (3, 1), (7, 2), (17, 1)]⟩, ⟨5501, 2, [(2, 2), (5, 3), (11, 1)]⟩,
   ⟨11003, 2, [(2, 1), (5501, 1)]⟩, ⟨20963, 2, [(2, 1), (47, 1), (223, 1)]⟩,
   ⟨41927, 5, [(2, 1), (20963, 1)]⟩, ⟨93001, 14, [(2, 3), (3, 1), (5, 3), (31, 1)]⟩,
   ⟨237073, 15, [(2, 4), (3, 1), (11, 1), (449, 1)]⟩,
   ⟨1593227, 2, [(2, 1), (19, 1), (41927, 1)]⟩,
   ⟨405928799, 22, [(2, 1), (11, 1), (3691, 1), (4999, 1)]⟩,
   ⟨639533339, 2, [(2, 1), (229, 1), (853, 1), (1637, 1)]⟩,
   ⟨12048837557, 2, [(2, 2), (7, 2), (661, 1), (93001, 1)]⟩,
   ⟨5156902474397, 2, [(2, 2), (107, 1), (12048837557, 1)]⟩,
   ⟨1670836401704629, 2, [(2, 2), (3, 4), (5156902474397, 1)]⟩,
   ⟨65865678001877903, 5, [(2, 1), (83, 1), (379, 1), (1637, 1), (639533339, 1)]⟩,
   ⟨13818364434197438864469338081, 3,
     [(2, 5), (5, 1), (823, 1), (1593227, 1), (65865678001877903, 1)]⟩,
   ⟨Fr.modulus, 5,
     [(2, 28), (3, 2), (13, 1), (29, 1), (983, 1), (11003, 1), (237073, 1), (405928799, 1),
      (1670836401704629, 1), (13818364434197438864469338081, 1)]⟩]

/-- A Pratt certificate of `p`, the modulus of the base field. -/
def fqCertificate : List Entry :=
  [⟨2, 1, []⟩, ⟨3, 2, [(2, 1)]⟩, ⟨5, 2, [(2, 2)]⟩, ⟨7, 3, [(2, 1), (3, 1)]⟩,
   ⟨11, 2, [(2, 1), (5, 1)]⟩, ⟨13, 2, [(2, 2), (3, 1)]⟩, ⟨17, 3, [(2, 4)]⟩,
   ⟨19, 2, [(2, 1), (3, 2)]⟩, ⟨29, 2, [(2, 2), (7, 1)]⟩, ⟨31, 3, [(2, 1), (3, 1), (5, 1)]⟩,
   ⟨37, 2, [(2, 2), (3, 2)]⟩, ⟨41, 6, [(2, 3), (5, 1)]⟩, ⟨67, 2, [(2, 1), (3, 1), (11, 1)]⟩,
   ⟨73, 5, [(2, 3), (3, 2)]⟩, ⟨89, 3, [(2, 3), (11, 1)]⟩, ⟨109, 6, [(2, 2), (3, 3)]⟩,
   ⟨127, 3, [(2, 1), (3, 2), (7, 1)]⟩, ⟨229, 6, [(2, 2), (3, 1), (19, 1)]⟩,
   ⟨233, 3, [(2, 3), (29, 1)]⟩, ⟨271, 6, [(2, 1), (3, 3), (5, 1)]⟩,
   ⟨311, 17, [(2, 1), (5, 1), (31, 1)]⟩, ⟨491, 2, [(2, 1), (5, 1), (7, 2)]⟩,
   ⟨911, 17, [(2, 1), (5, 1), (7, 1), (13, 1)]⟩, ⟨983, 5, [(2, 1), (491, 1)]⟩,
   ⟨1231, 3, [(2, 1), (3, 1), (5, 1), (41, 1)]⟩, ⟨2221, 2, [(2, 2), (3, 1), (5, 1), (37, 1)]⟩,
   ⟨3557, 2, [(2, 2), (7, 1), (127, 1)]⟩, ⟨3691, 2, [(2, 1), (3, 2), (5, 1), (41, 1)]⟩,
   ⟨4999, 3, [(2, 1), (3, 1), (7, 2), (17, 1)]⟩, ⟨5501, 2, [(2, 2), (5, 3), (11, 1)]⟩,
   ⟨11003, 2, [(2, 1), (5501, 1)]⟩, ⟨13327, 3, [(2, 1), (3, 1), (2221, 1)]⟩,
   ⟨327599, 19, [(2, 1), (19, 1), (37, 1), (233, 1)]⟩,
   ⟨1853641, 17, [(2, 3), (3, 2), (5, 1), (19, 1), (271, 1)]⟩,
   ⟨4562087, 5, [(2, 1), (17, 1), (109, 1), (1231, 1)]⟩,
   ⟨173171039, 13, [(2, 1), (73, 1), (89, 1), (13327, 1)]⟩,
   ⟨405928799, 22, [(2, 1), (11, 1), (3691, 1), (4999, 1)]⟩,
   ⟨1263766531, 10, [(2, 1), (3, 1), (5, 1), (13, 1), (911, 1), (3557, 1)]⟩,
   ⟨11465965001, 3, [(2, 3), (5, 4), (7, 1), (327599, 1)]⟩,
   ⟨35385462869, 2, [(2, 2), (7, 1), (1263766531, 1)]⟩,
   ⟨2480874801745591, 6, [(2, 1), (3, 2), (5, 1), (19, 1), (41, 1), (35385462869, 1)]⟩,
   ⟨13427688667394608761327070753331941386769, 17,
     [(2, 4), (3, 1), (7, 1), (11, 1), (1853641, 1), (4562087, 1), (173171039, 1),
      (2480874801745591, 1)]⟩,
   ⟨Fq.modulus, 3,
     [(2, 1), (3, 2), (13, 1), (29, 1), (67, 1), (229, 1), (311, 1), (983, 1), (11003, 1),
      (405928799, 1), (11465965001, 1), (13427688667394608761327070753331941386769, 1)]⟩]

/-- A Pratt certificate of the four prime factors of the twist's cofactor `h`. -/
def cofactorCertificate : List Entry :=
  [⟨2, 1, []⟩, ⟨3, 2, [(2, 1)]⟩, ⟨5, 2, [(2, 2)]⟩, ⟨11, 2, [(2, 1), (5, 1)]⟩,
   ⟨19, 2, [(2, 1), (3, 2)]⟩, ⟨419, 2, [(2, 1), (11, 1), (19, 1)]⟩, ⟨839, 11, [(2, 1), (419, 1)]⟩,
   ⟨10069, 2, [(2, 2), (3, 1), (839, 1)]⟩, ⟨181, 2, [(2, 2), (3, 2), (5, 1)]⟩,
   ⟨5864401, 38, [(2, 4), (3, 4), (5, 2), (181, 1)]⟩, ⟨199, 3, [(2, 1), (3, 2), (11, 1)]⟩,
   ⟨151, 6, [(2, 1), (3, 1), (5, 2)]⟩, ⟨1511, 11, [(2, 1), (5, 1), (151, 1)]⟩,
   ⟨601379, 2, [(2, 1), (199, 1), (1511, 1)]⟩,
   ⟨17367825521, 3, [(2, 4), (5, 1), (19, 2), (601379, 1)]⟩,
   ⟨1875725156269, 2, [(2, 2), (3, 3), (17367825521, 1)]⟩, ⟨7, 3, [(2, 1), (3, 1)]⟩,
   ⟨29, 2, [(2, 2), (7, 1)]⟩, ⟨59, 2, [(2, 1), (29, 1)]⟩, ⟨43, 3, [(2, 1), (3, 1), (7, 1)]⟩,
   ⟨23, 5, [(2, 1), (11, 1)]⟩, ⟨727, 5, [(2, 1), (3, 1), (11, 2)]⟩,
   ⟨133769, 3, [(2, 3), (23, 1), (727, 1)]⟩, ⟨13, 2, [(2, 2), (3, 1)]⟩,
   ⟨61, 2, [(2, 2), (3, 1), (5, 1)]⟩, ⟨53, 2, [(2, 2), (13, 1)]⟩, ⟨107, 2, [(2, 1), (53, 1)]⟩,
   ⟨37, 2, [(2, 2), (3, 2)]⟩, ⟨149, 2, [(2, 2), (37, 1)]⟩,
   ⟨5835139, 3, [(2, 1), (3, 1), (61, 1), (107, 1), (149, 1)]⟩,
   ⟨758568071, 14, [(2, 1), (5, 1), (13, 1), (5835139, 1)]⟩,
   ⟨1309000310535827101, 2, [(2, 2), (3, 1), (5, 2), (43, 1), (133769, 1), (758568071, 1)]⟩,
   ⟨17, 3, [(2, 4)]⟩, ⟨157, 5, [(2, 2), (3, 1), (13, 1)]⟩,
   ⟨1233079, 11, [(2, 1), (3, 1), (7, 1), (11, 1), (17, 1), (157, 1)]⟩,
   ⟨103, 5, [(2, 1), (3, 1), (17, 1)]⟩, ⟨1031, 14, [(2, 1), (5, 1), (103, 1)]⟩,
   ⟨1381, 2, [(2, 2), (3, 1), (5, 1), (23, 1)]⟩, ⟨38669, 2, [(2, 2), (7, 1), (1381, 1)]⟩,
   ⟨77339, 2, [(2, 1), (38669, 1)]⟩, ⟨41, 6, [(2, 3), (5, 1)]⟩, ⟨83, 2, [(2, 1), (41, 1)]⟩,
   ⟨491, 2, [(2, 1), (5, 1), (7, 2)]⟩, ⟨983, 5, [(2, 1), (491, 1)]⟩, ⟨73, 5, [(2, 3), (3, 2)]⟩,
   ⟨3359, 11, [(2, 1), (23, 1), (73, 1)]⟩, ⟨268721, 3, [(2, 4), (5, 1), (3359, 1)]⟩,
   ⟨1612327, 5, [(2, 1), (3, 1), (268721, 1)]⟩,
   ⟨677736056450657, 3, [(2, 5), (7, 1), (23, 1), (83, 1), (983, 1), (1612327, 1)]⟩,
   ⟨209661715479349446893, 2, [(2, 2), (77339, 1), (677736056450657, 1)]⟩,
   ⟨3458579658547348475946929, 3, [(2, 4), (1031, 1), (209661715479349446893, 1)]⟩,
   ⟨213235097339095295568608163219551, 31,
     [(2, 1), (5, 2), (1233079, 1), (3458579658547348475946929, 1)]⟩,
   ⟨197620364512881247228717050342013327560683201906968909, 2,
     [(2, 2), (3, 1), (59, 1), (1309000310535827101, 1), (213235097339095295568608163219551, 1)]⟩]

end Lucas

/-- The order `r` of the BN254 groups is prime. -/
theorem Fr.modulus_prime : Nat.Prime Fr.modulus :=
  @Lucas.prime_of_mem_certified 256 Lucas.frCertificate [] (by simp) Fr.modulus
    (by decide +kernel)

instance : Fact (Nat.Prime Fr.modulus) := ⟨Fr.modulus_prime⟩

/-- The characteristic `p` of the base field is prime. -/
theorem Fq.modulus_prime : Nat.Prime Fq.modulus :=
  @Lucas.prime_of_mem_certified 256 Lucas.fqCertificate [] (by simp) Fq.modulus
    (by decide +kernel)

instance : Fact (Nat.Prime Fq.modulus) := ⟨Fq.modulus_prime⟩

/-- The prime factors of the twist's cofactor `h`, each once. -/
def G2.cofactorPrimes : List Nat :=
  [10069, 5864401, 1875725156269, 197620364512881247228717050342013327560683201906968909]

/-- The factors of the cofactor are prime. -/
theorem G2.prime_of_mem_cofactorPrimes {q : Nat} (hq : q ∈ G2.cofactorPrimes) : q.Prime := by
  have hcert : ∀ q ∈ G2.cofactorPrimes, q ∈ Lucas.certified 192 [] Lucas.cofactorCertificate := by
    decide +kernel
  exact Lucas.prime_of_mem_certified Lucas.cofactorCertificate (by simp) (hcert q hq)

end ZkPolicy
