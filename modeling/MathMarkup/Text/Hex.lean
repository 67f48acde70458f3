import MathMarkup.Text.Basic

/-!
# Numbers to base sixteen

Digits may be of either case.
-/
namespace MathMarkup.Text

def hexDigit? (c : Char) : Option Nat :=
  if c.isDigit then some (c.toNat - '0'.toNat)
  else if 'a' ≤ c ∧ c ≤ 'f' then some (c.toNat - 'a'.toNat + 10)
  else if 'A' ≤ c ∧ c ≤ 'F' then some (c.toNat - 'A'.toNat + 10)
  else none

/-- The value of a text of at least one digit. -/
def hexValue? (digits : Text) : Option Nat :=
  if digits = [] then none
  else digits.foldlM (fun value c => (hexDigit? c).map (16 * value + ·)) 0

end MathMarkup.Text
