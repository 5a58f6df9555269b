/-!
# Powers by repeated squaring

`powBySquaring one a e` is `a ^ e` for any multiplication with unit `one`: the exponent is
halved at each step and the base squared, so the work is logarithmic in `e`. Every field of the
library (the prime fields and the extensions of the pairing tower) takes its powers from here.
-/

namespace ZkPolicy

/-- **Square and multiply.** `a ^ e` with unit `one`, reading the exponent from its lowest
bit: `a ^ e = (a * a) ^ (e / 2) * a ^ (e % 2)`. -/
def powBySquaring {α : Type} [Mul α] (one a : α) (e : Nat) : α :=
  match e with
  | 0 => one
  | k + 1 =>
    let half := powBySquaring one (a * a) ((k + 1) / 2)
    if (k + 1) % 2 = 1 then a * half else half
termination_by e
decreasing_by exact Nat.div_lt_self (Nat.succ_pos k) (by decide)

end ZkPolicy
