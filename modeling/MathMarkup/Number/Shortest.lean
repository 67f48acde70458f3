import MathMarkup.Number.Decimal
import MathMarkup.Text.Basic

/-!
# The shortest decimal that reads back

Of the decimals that round to a number, its text shows one on the coarsest grid of powers of ten,
and there the nearest. The text is positional and has no exponent.
-/
namespace MathMarkup

-- powers of natural numbers are the core library's, whatever else is imported
attribute [local instance (high)] instPowNat

namespace Decimal

/-- Drops the zeros at the end of a fraction of the given length. -/
def trim (digits : Nat) : Nat → Nat × Nat
  | 0 => (digits, 0)
  | f + 1 => if digits % 10 = 0 then trim (digits / 10) f else (digits, f + 1)

/-- The digits of a number below `10 ^ width`, with leading zeros. -/
def padded (width n : Nat) : Text :=
  let ds := Nat.toDigits 10 n
  List.replicate (width - ds.length) '0' ++ ds

/-- Positional notation: no exponent, no zeros that could be left out. -/
def toText (d : Decimal) : Text :=
  let (digits, places) := trim (d.digits * 10 ^ d.exponent.toNat) (-d.exponent).toNat
  match places with
  | 0 => Nat.toDigits 10 digits
  | f => Nat.toDigits 10 (digits / 10 ^ f) ++ '.' :: padded f (digits % 10 ^ f)

end Decimal

namespace Binary64

/-- A multiple of `10 ^ exponent` that reads back as the code, if one of the two around the
magnitude does. Of two the nearer is taken, and the upper one where they are equally near. -/
def gridPoint? (code : Nat) (exponent : Int) : Option Decimal :=
  let n := units code * 10 ^ (-exponent).toNat
  let d := 2 ^ (1074 : Nat) * 10 ^ exponent.toNat
  let below : Decimal := ⟨n / d, exponent⟩
  let above : Decimal := ⟨n / d + 1, exponent⟩
  if below.roundCode = code ∧ (2 * (n % d) < d ∨ above.roundCode ≠ code) then some below
  else if above.roundCode = code then some above
  else none

/-- The first point found on the grids from a top one down, or the one that always is. -/
def firstPoint (point? : Nat → Option Decimal) (last : Decimal) : Nat → Decimal
  | 0 => last
  | grid + 1 =>
    match point? grid with
    | some d => d
    | none => firstPoint point? last grid

/-- Tries the grids from `10 ^ (grid - 1074)` down to 10⁻¹⁰⁷⁴, where the magnitude itself lies. -/
def shortestFrom (code grid : Nat) : Decimal :=
  firstPoint (fun grid => gridPoint? code (grid + 1 - 1074)) ⟨units code * 5 ^ (1074 : Nat), -1074⟩ grid

/-- A grid whose step is more than twice a magnitude. -/
def topGrid (code : Nat) : Nat := ((units code).log2 + 2) * 30103 / 100000 + 752

def shortest (code : Nat) : Decimal :=
  if code = 0 then ⟨0, 0⟩ else shortestFrom code (topGrid code)

/-- The text of a number: its sign and its shortest decimal, or a word. -/
def toText (x : Binary64) : Text :=
  let sign := if x.negative then ['-'] else []
  if x.isFinite then sign ++ (shortest x.code).toText
  else if x.isInfinite then sign ++ "inf".toList
  else "NaN".toList

end Binary64

end MathMarkup
