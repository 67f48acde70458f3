import Mathlib
import MathMarkup.Proofs.Number.Text
import MathMarkup.Proofs.Scan.Lexemes

/-!
# Reading the text of a number

The text of a finite number is a sign and a numeral without an exponent. Read as a whole it gives
the number back, and the sign of a zero with it.
-/
namespace MathMarkup

open Numeral

namespace Numeral

theorem writes_positional {whole fraction : Text} (hne : whole ≠ [])
    (hdigit : ∀ c ∈ whole ++ fraction, c.isDigit = true) :
    Writes Char.isDigit ⟨whole, fraction, none⟩ (positional whole fraction) := by
  have hwhole : ∀ c ∈ whole, c.isDigit = true := fun c hc =>
    hdigit c (List.mem_append_left fraction hc)
  have hfraction : ∀ c ∈ fraction, c.isDigit = true := fun c hc =>
    hdigit c (List.mem_append_right whole hc)
  refine ⟨positional whole fraction, [], (List.append_nil _).symm, ?_, .none⟩
  unfold positional
  split
  · next hnil =>
    subst hnil
    rw [List.append_nil]
    exact .whole ⟨hne, hwhole⟩
  · exact .point hwhole hfraction fun h => hne h.1

end Numeral

theorem Text.toLower_of_isDigit {c : Char} (h : c.isDigit = true) : c.toLower = c := by
  have hdigit : c.toNat ≤ 57 := by
    simp only [Char.isDigit, Bool.and_eq_true, decide_eq_true_eq] at h
    exact h.2
  refine Char.toLower_eq_of_not_isUpper fun hupper => ?_
  have hletter : 65 ≤ c.toNat := by
    simp only [Char.isUpper, decide_eq_true_eq] at hupper
    exact hupper.1
  omega

namespace Binary64

variable {v : Binary64}

/-- A numeral that begins with a digit is no word. -/
theorem ofUnsigned?_of_writes {text : Text} {n : Numeral} (h : Writes Char.isDigit n text)
    {c : Char} {rest : Text} (htext : text = c :: rest) (hc : c.isDigit = true) (negative : Bool) :
    ofUnsigned? negative text = some (n.toDecimal.round negative) := by
  subst htext
  have hhead {first : Char} (hfirst : first.isDigit = false) : c.toLower ≠ first := by
    rw [Text.toLower_of_isDigit hc]
    rintro rfl
    rw [hc] at hfirst
    cases hfirst
  have hi := @hhead 'i' (by decide)
  have hn := @hhead 'n' (by decide)
  rw [ofUnsigned?]
  simp [hi, hn, scan_of_writes isDigitClass_isDigit h]

/-- The numeral in the text of a magnitude is read as the number, whatever its sign. -/
theorem toDecimal_round {whole fraction : Text} (h : v.isFinite = true)
    (hwritten : (shortest v.code).IsWritten whole fraction) :
    (⟨whole, fraction, none⟩ : Numeral).toDecimal.round v.negative = v := by
  have hcode : v.code < infinityCode := by simpa [isFinite] using h
  have hround := round_of_isWritten hcode hwritten
  obtain ⟨negative, code, hlt⟩ := v
  exact (Binary64.mk.injEq ..).mpr ⟨rfl, hround⟩

/-- The text of a finite number is read as the number. -/
theorem ofText?_toText (h : v.isFinite = true) : ofText? v.toText = some v := by
  obtain ⟨whole, fraction, hwritten, -⟩ := (shortest v.code).exists_isWritten
  have hwrites := writes_positional hwritten.whole_ne_nil hwritten.isDigit
  obtain ⟨c, rest, rfl⟩ := List.exists_cons_of_ne_nil hwritten.whole_ne_nil
  have hc : c.isDigit = true := hwritten.isDigit c (by simp)
  have hread : ofUnsigned? v.negative (positional (c :: rest) fraction) = some v := by
    rw [ofUnsigned?_of_writes hwrites rfl hc, toDecimal_round h hwritten]
  rw [toText_of_isFinite h, hwritten.toText_eq]
  cases hsign : v.negative with
  | true =>
    rw [hsign] at hread
    exact hread
  | false =>
    rw [hsign] at hread
    have hsigned : takeSign (positional (c :: rest) fraction) =
        (false, positional (c :: rest) fraction) :=
      takeSign_of_isDigits isDigitClass_isDigit
        ⟨hwritten.whole_ne_nil, fun d hd => hwritten.isDigit d (List.mem_append_left fraction hd)⟩
    rw [if_neg Bool.false_ne_true, List.nil_append, ofText?, hsigned]
    exact hread

/-- The characters of the text of a finite number. -/
theorem isDigit_or_mem_toText (h : v.isFinite = true) :
    ∀ c ∈ v.toText, c.isDigit = true ∨ c = '.' ∨ c = '-' := by
  intro c hc
  rw [toText_of_isFinite h, List.mem_append] at hc
  rcases hc with hc | hc
  · split at hc
    · exact .inr (.inr (List.mem_singleton.1 hc))
    · cases hc
  · rcases Decimal.isDigit_or_point c hc with hc | hc
    · exact .inl hc
    · exact .inr (.inl hc)

end Binary64

end MathMarkup
