/-
Rounding to a limited number of significant binary digits. A number that has no more digits is
kept as it is.
-/
import GroupReplication.Bytes

namespace GroupReplication.Rounding

/-- The multiple of `unit` that is nearest to `n`; of two that are as near, the even multiple. -/
def toMultiple (unit n : Nat) : Nat :=
  let whole := n / unit
  let rest := n % unit
  let up : Bool := unit < 2 * rest || (2 * rest == unit && whole % 2 == 1)
  (if up then whole + 1 else whole) * unit

/-- The number nearest to `n` that has at most `digits` significant binary digits. -/
def significant (digits n : Nat) : Nat :=
  if n < 2 ^ digits then n else toMultiple (2 ^ (n.log2 + 1 - digits)) n

end GroupReplication.Rounding
