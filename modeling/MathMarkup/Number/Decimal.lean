import MathMarkup.Number.Binary64

/-!
# Decimals and their nearest binary64 number

`Decimal.round` gives the number nearest to a decimal, with ties to the even significand, by one
division of natural numbers. Magnitudes above the largest finite one become infinite.
-/
namespace MathMarkup

-- powers of natural numbers are the core library's, whatever else is imported
attribute [local instance (high)] instPowNat

/-- The rational `digits · 10 ^ exponent`. -/
structure Decimal where
  digits : Nat
  exponent : Int
  deriving DecidableEq

/-- The natural number nearest to `n / d`; a tie goes to the even one. -/
def roundHalfEven (n d : Nat) : Nat :=
  let q := n / d
  let r := n % d
  if 2 * r < d then q else if d < 2 * r then q + 1 else q + q % 2

namespace Binary64

/-- The code nearest to the magnitude `n / d`, not yet cut down to `infinityCode`.
A significand that rounds up to 2⁵³ carries into the scale by itself. -/
def nearestCode (n d : Nat) : Nat :=
  let s := (n * 2 ^ (1074 : Nat) / d).log2 - 52
  s * 2 ^ (52 : Nat) + roundHalfEven (n * 2 ^ (1074 : Nat)) (d * 2 ^ s)

end Binary64

namespace Decimal

/-- The magnitude of a decimal as a fraction of natural numbers. -/
def numerator (d : Decimal) : Nat := d.digits * 10 ^ d.exponent.toNat

def denominator (d : Decimal) : Nat := 10 ^ (-d.exponent).toNat

/-- The code of the magnitude nearest to a decimal. The first three cases are those whose answer
needs no power of ten: nothing below 10⁻⁴⁰⁰ is nearer to the smallest number than to zero, and
everything from 10⁴⁰⁰ on is infinite. -/
def roundCode (d : Decimal) : Nat :=
  if d.digits = 0 then 0
  else if 400 < d.exponent then Binary64.infinityCode
  else if d.exponent < -(1100 + d.digits.log2 : Int) then 0
  else Binary64.nearestCode d.numerator d.denominator

/-- The binary64 number nearest to a decimal with a sign. -/
def round (negative : Bool) (d : Decimal) : Binary64 :=
  Binary64.ofCode negative d.roundCode

end Decimal

end MathMarkup
