import MathMarkup.Number.Decimal
import MathMarkup.Text.Basic

/-!
# Numerals

Decimal notation for numbers: digits with an optional point and an optional exponent.
`Numeral.scan` takes the longest numeral at the head of a text, for any class of characters that
may serve as digits. `Binary64.ofText?` reads a whole text, signs and the words for infinity and
for the missing number included.
-/
namespace MathMarkup

/-- `whole.fractionE±power`, with the power's sign and digits if an exponent is written. -/
structure Numeral where
  whole : Text
  fraction : Text
  power : Option (Bool × Text)
  deriving DecidableEq

namespace Numeral

/-- Takes a sign off the head of a text; whether it was a minus sign, and the text after it. -/
def takeSign : Text → Bool × Text
  | '-' :: rest => (true, rest)
  | '+' :: rest => (false, rest)
  | text => (false, text)

/-- The exponent at the head of a text, if a whole one stands there, and the text after it. -/
def scanPower (digit : Char → Bool) (text : Text) : Option (Bool × Text) × Text :=
  match text with
  | [] => (none, [])
  | mark :: rest =>
    if mark = 'e' ∨ mark = 'E' then
      let (negative, unsigned) := takeSign rest
      let digits := unsigned.takeWhile digit
      if digits = [] then (none, text) else (some (negative, digits), unsigned.dropWhile digit)
    else (none, text)

/-- The longest numeral at the head of a text, with the text after it. A point may stand before
or after the digits, but not alone. -/
def scan (digit : Char → Bool) (text : Text) : Option (Numeral × Text) :=
  let whole := text.takeWhile digit
  let finish (fraction rest : Text) : Numeral × Text :=
    let (power, rest) := scanPower digit rest
    (⟨whole, fraction, power⟩, rest)
  match text.dropWhile digit with
  | '.' :: rest =>
    let fraction := rest.takeWhile digit
    if whole = [] ∧ fraction = [] then none
    else some (finish fraction (rest.dropWhile digit))
  | rest => if whole = [] then none else some (finish [] rest)

/-- The power of ten that a numeral names. -/
def powerValue (n : Numeral) : Int :=
  match n.power with
  | none => 0
  | some (negative, ds) =>
    let v : Int := Nat.ofDigitChars 10 ds 0
    if negative then -v else v

/-- The value of a numeral whose digits are those of ASCII. -/
def toDecimal (n : Numeral) : Decimal :=
  ⟨Nat.ofDigitChars 10 (n.whole ++ n.fraction) 0, n.powerValue - n.fraction.length⟩

/-! ## What is left after a numeral -/

theorem takeSign_length_le (text : Text) : (takeSign text).2.length ≤ text.length := by
  fun_cases takeSign text <;> simp

theorem scanPower_length_le (digit : Char → Bool) (text : Text) :
    (scanPower digit text).2.length ≤ text.length := by
  fun_cases scanPower digit text with
  | case1 => simp
  | case2 => simp
  | case3 mark rest _ negative unsigned hs digits _ =>
    have hsign := takeSign_length_le rest
    have hdrop := (List.dropWhile_sublist digit (l := unsigned)).length_le
    simp only [hs] at hsign
    simp only [List.length_cons]
    omega
  | case4 => simp

theorem scan_length_lt {digit : Char → Bool} {text after : Text} {n : Numeral}
    (h : scan digit text = some (n, after)) : after.length < text.length := by
  have hlen : (text.takeWhile digit).length + (text.dropWhile digit).length = text.length := by
    rw [← List.length_append, List.takeWhile_append_dropWhile]
  unfold scan at h
  dsimp only at h
  split at h
  · next rest hr =>
    split at h
    · simp at h
    · have hp := scanPower_length_le digit (rest.dropWhile digit)
      have hd := (List.dropWhile_sublist digit (l := rest)).length_le
      simp only [Option.some.injEq, Prod.mk.injEq] at h
      simp only [hr, List.length_cons] at hlen
      rw [← h.2]
      omega
  · split at h
    · simp at h
    · next hw =>
      have hp := scanPower_length_le digit (text.dropWhile digit)
      simp only [Option.some.injEq, Prod.mk.injEq] at h
      have := List.length_pos_iff.2 hw
      rw [← h.2]
      omega

end Numeral

namespace Binary64

/-- Reads a number that stands after its sign; letters may be of either case. -/
def ofUnsigned? (negative : Bool) (text : Text) : Option Binary64 :=
  let word := text.map Char.toLower
  if word = "inf".toList ∨ word = "infinity".toList then some (infinity negative)
  else if word = "nan".toList then some { notANumber with negative := negative }
  else
    match Numeral.scan Char.isDigit text with
    | some (numeral, []) => some (numeral.toDecimal.round negative)
    | _ => none

/-- Reads a number that may have a sign; nothing else may stand in the text. -/
def ofText? (text : Text) : Option Binary64 :=
  let (negative, unsigned) := Numeral.takeSign text
  ofUnsigned? negative unsigned

end Binary64

end MathMarkup
