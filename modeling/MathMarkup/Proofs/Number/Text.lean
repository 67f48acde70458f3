import Mathlib
import MathMarkup.Expr.Scan
import MathMarkup.Proofs.Number.Rounding
import MathMarkup.Proofs.Text

/-!
# The text of a number reads back

A decimal is written as digits, and after a point those of its fraction. A scan takes this text
whole where no letter, digit or point follows it, and the numeral it finds rounds as the decimal.
-/
namespace MathMarkup

namespace Numeral

/-- A numeral without an exponent, as it is written. -/
def positional (whole fraction : Text) : Text :=
  whole ++ if fraction = [] then [] else '.' :: fraction

/-- Digits before and after a point, none of them a zero that could be left out. -/
structure IsMinimal (whole fraction : Text) : Prop where
  whole_ne_nil : whole ≠ []
  isDigit : ∀ c ∈ whole ++ fraction, c.isDigit = true
  leading : whole.head? = some '0' → whole = ['0']
  trailing : fraction.getLast? ≠ some '0'

theorem isDigit_or_point {whole fraction : Text}
    (hdigit : ∀ c ∈ whole ++ fraction, c.isDigit = true) :
    ∀ c ∈ positional whole fraction, c.isDigit = true ∨ c = '.' := by
  intro c hc
  have hnumeral : c ∈ whole ++ '.' :: fraction := by
    unfold positional at hc
    split at hc <;> simp_all
  rw [List.mem_append, List.mem_cons] at hnumeral
  rcases hnumeral with hc | hc | hc
  · exact .inl (hdigit c (List.mem_append_left fraction hc))
  · exact .inr hc
  · exact .inl (hdigit c (List.mem_append_right whole hc))

end Numeral

open Numeral

namespace Decimal

/-! ## Writing a decimal -/

theorem trim_mul (digits places : Nat) :
    (trim digits places).1 * 10 ^ places = digits * 10 ^ (trim digits places).2 := by
  induction places generalizing digits with
  | zero => rfl
  | succ places ih =>
    unfold trim
    split
    · next hlast =>
      have hdigits : digits / 10 * 10 = digits := Nat.div_mul_cancel (Nat.dvd_of_mod_eq_zero hlast)
      rw [Nat.pow_succ, ← Nat.mul_assoc, ih, Nat.mul_right_comm, hdigits]
    · rfl

theorem trim_le (digits places : Nat) : (trim digits places).2 ≤ places := by
  induction places generalizing digits with
  | zero => exact Nat.le_refl 0
  | succ places ih =>
    unfold trim
    split
    · exact Nat.le_succ_of_le (ih _)
    · exact Nat.le_refl _

theorem trim_mod {digits places : Nat} (h : (trim digits places).2 ≠ 0) :
    (trim digits places).1 % 10 ≠ 0 := by
  induction places generalizing digits with
  | zero => exact absurd rfl h
  | succ places ih =>
    unfold trim at h ⊢
    split at h
    · next hlast =>
      rw [if_pos hlast]
      exact ih h
    · next hlast =>
      rw [if_neg hlast]
      exact hlast

theorem eq_zero_of_head?_toDigits {n : Nat} (h : (Nat.toDigits 10 n).head? = some '0') :
    n = 0 := by
  induction n using Nat.strong_induction_on with
  | _ n ih =>
    rw [Nat.toDigits_eq_if (by decide)] at h
    split at h
    · simpa using h
    · next hlarge =>
      rw [List.head?_append_of_ne_nil _ Nat.toDigits_ne_nil] at h
      have hquotient := ih (n / 10) (by omega) h
      omega

theorem getLast?_toDigits (n : Nat) : (Nat.toDigits 10 n).getLast? = some (n % 10).digitChar := by
  rw [Nat.toDigits_eq_if (by decide)]
  split
  · next hsmall => rw [Nat.mod_eq_of_lt hsmall, List.getLast?_singleton]
  · exact List.getLast?_concat

theorem getLast?_padded (width n : Nat) : (padded width n).getLast? = some (n % 10).digitChar := by
  rw [padded, List.getLast?_append_of_ne_nil _ Nat.toDigits_ne_nil, getLast?_toDigits]

theorem length_padded {width n : Nat} (hwidth : 0 < width) (hn : n < 10 ^ width) :
    (padded width n).length = width := by
  have hlen := (Nat.length_toDigits_le_iff (by decide) hwidth).2 hn
  simp only [padded, List.length_append, List.length_replicate]
  omega

theorem isDigit_of_mem_padded {width n : Nat} : ∀ c ∈ padded width n, c.isDigit = true := by
  intro c hc
  rcases List.mem_append.1 hc with hc | hc
  · rw [List.eq_of_mem_replicate hc]
    rfl
  · exact Nat.isDigit_of_mem_toDigits (by decide) (by decide) hc

theorem ofDigitChars_padded (width n : Nat) : Nat.ofDigitChars 10 (padded width n) 0 = n := by
  rw [padded, Nat.ofDigitChars_append, Nat.ofDigitChars_replicate_zero, Nat.mul_zero,
    Nat.ofDigitChars_toDigits (by decide) (by decide)]

/-- The digits that a decimal is written with, and that together they have its value. -/
structure IsWritten (d : Decimal) (whole fraction : Text) : Prop where
  toText_eq : d.toText = positional whole fraction
  whole_ne_nil : whole ≠ []
  isDigit : ∀ c ∈ whole ++ fraction, c.isDigit = true
  length_fraction : fraction.length ≤ (-d.exponent).toNat
  value : Nat.ofDigitChars 10 (whole ++ fraction) 0 * d.denominator =
    d.numerator * 10 ^ fraction.length

/-- A decimal is written without zeros that could be left out. -/
theorem exists_isWritten (d : Decimal) :
    ∃ whole fraction, d.IsWritten whole fraction ∧ IsMinimal whole fraction := by
  obtain ⟨n, places, htrim⟩ : ∃ n places, trim d.numerator (-d.exponent).toNat = (n, places) :=
    ⟨_, _, rfl⟩
  have hvalue : n * d.denominator = d.numerator * 10 ^ places := by
    have h := trim_mul d.numerator (-d.exponent).toNat
    rwa [htrim] at h
  have hplaces : places ≤ (-d.exponent).toNat := by
    have h := trim_le d.numerator (-d.exponent).toNat
    rwa [htrim] at h
  have hlast : places ≠ 0 → n % 10 ≠ 0 := by
    have h := @trim_mod d.numerator (-d.exponent).toNat
    rwa [htrim] at h
  have hdigit (m : Nat) : ∀ c ∈ Nat.toDigits 10 m, c.isDigit = true := fun c hc =>
    Nat.isDigit_of_mem_toDigits (by decide) (by decide) hc
  have hleading (m : Nat) (h : (Nat.toDigits 10 m).head? = some '0') :
      Nat.toDigits 10 m = ['0'] := by
    rw [eq_zero_of_head?_toDigits h, Nat.toDigits_zero]
  unfold numerator at htrim
  cases places with
  | zero =>
    have hdigits : ∀ c ∈ Nat.toDigits 10 n ++ [], c.isDigit = true := by simpa using hdigit n
    refine ⟨Nat.toDigits 10 n, [], ⟨?_, Nat.toDigits_ne_nil, hdigits, Nat.zero_le _, ?_⟩,
      ⟨Nat.toDigits_ne_nil, hdigits, hleading n, by simp⟩⟩
    · simp [toText, htrim, positional]
    · rw [List.append_nil, Nat.ofDigitChars_toDigits (by decide) (by decide)]
      exact hvalue
  | succ f =>
    have hlen : (padded (f + 1) (n % 10 ^ (f + 1))).length = f + 1 :=
      length_padded (Nat.succ_pos f) (Nat.mod_lt n (Nat.pow_pos (by decide)))
    have hne : padded (f + 1) (n % 10 ^ (f + 1)) ≠ [] := by
      rw [← List.length_pos_iff, hlen]
      exact Nat.succ_pos f
    have hdigits : ∀ c ∈ Nat.toDigits 10 (n / 10 ^ (f + 1)) ++ padded (f + 1) (n % 10 ^ (f + 1)),
        c.isDigit = true := by
      intro c hc
      rcases List.mem_append.1 hc with hc | hc
      · exact hdigit _ c hc
      · exact isDigit_of_mem_padded c hc
    have htrailing : (padded (f + 1) (n % 10 ^ (f + 1))).getLast? ≠ some '0' := by
      have hten : 10 ∣ 10 ^ (f + 1) := dvd_pow_self 10 (Nat.succ_ne_zero f)
      rw [getLast?_padded, Nat.mod_mod_of_dvd n hten]
      simpa using hlast (Nat.succ_ne_zero f)
    refine ⟨Nat.toDigits 10 (n / 10 ^ (f + 1)), padded (f + 1) (n % 10 ^ (f + 1)),
      ⟨?_, Nat.toDigits_ne_nil, hdigits, hlen.symm ▸ hplaces, ?_⟩,
      ⟨Nat.toDigits_ne_nil, hdigits, hleading _, htrailing⟩⟩
    · simp [toText, htrim, positional, hne]
    · rw [Nat.ofDigitChars_append, Nat.ofDigitChars_toDigits (by decide) (by decide),
        Nat.ofDigitChars_eq_ofDigitChars_zero, ofDigitChars_padded, hlen, Nat.div_add_mod]
      exact hvalue

theorem isDigit_or_point {d : Decimal} : ∀ c ∈ d.toText, c.isDigit = true ∨ c = '.' := by
  obtain ⟨whole, fraction, h, -⟩ := d.exists_isWritten
  rw [h.toText_eq]
  exact Numeral.isDigit_or_point h.isDigit

theorem exists_digit_cons (d : Decimal) :
    ∃ c rest, d.toText = c :: rest ∧ c.isDigit = true := by
  obtain ⟨whole, fraction, h, -⟩ := d.exists_isWritten
  obtain ⟨c, rest, rfl⟩ := List.exists_cons_of_ne_nil h.whole_ne_nil
  exact ⟨c, _, h.toText_eq, h.isDigit c (by simp)⟩

end Decimal

/-! ## Scanning what was written -/

/-- No lexeme goes on into the text: it starts with no letter, digit, underscore or point. -/
def EndsLexeme (text : Text) : Prop :=
  ∀ c rest, text = c :: rest →
    isNamePart c = false ∧ Text.isDecimalDigit c = false ∧ c ≠ '.'

theorem endsLexeme_nil : EndsLexeme [] := by
  rintro c rest ⟨⟩

namespace Numeral

theorem scanPower_endsLexeme {rest : Text} (hrest : EndsLexeme rest) :
    scanPower Text.isDecimalDigit rest = (none, rest) := by
  cases rest with
  | nil => rfl
  | cons c after =>
    have hpart := (hrest c after rfl).1
    have hmark : ¬ (c = 'e' ∨ c = 'E') := by
      rintro (rfl | rfl) <;> exact absurd hpart (by decide)
    rw [scanPower, if_neg hmark]

theorem scan_positional {whole fraction rest : Text} (hne : whole ≠ [])
    (hdigit : ∀ c ∈ whole ++ fraction, c.isDigit = true) (hrest : EndsLexeme rest) :
    scan Text.isDecimalDigit (positional whole fraction ++ rest) =
      some (⟨whole, fraction, none⟩, rest) := by
  have hwhole : ∀ c ∈ whole, Text.isDecimalDigit c = true := fun c hc =>
    Text.isDecimalDigit_of_isDigit (hdigit c (List.mem_append_left fraction hc))
  have hfraction : ∀ c ∈ fraction, Text.isDecimalDigit c = true := fun c hc =>
    Text.isDecimalDigit_of_isDigit (hdigit c (List.mem_append_right whole hc))
  have hend : ∀ c after, rest = c :: after → Text.isDecimalDigit c = false := fun c after h =>
    (hrest c after h).2.1
  unfold positional scan
  split
  · next hnil =>
    obtain ⟨htake, hdrop⟩ := Text.takeWhile_append hwhole hend
    rw [List.append_nil, htake, hdrop]
    split
    · next after => exact absurd rfl (hrest '.' after rfl).2.2
    · rw [if_neg hne]
      dsimp only
      rw [scanPower_endsLexeme hrest, hnil]
  · have hpoint : ∀ c after, '.' :: (fraction ++ rest) = c :: after →
        Text.isDecimalDigit c = false := by
      rintro c after ⟨⟩
      decide
    obtain ⟨htake, hdrop⟩ := Text.takeWhile_append hwhole hpoint
    obtain ⟨htake', hdrop'⟩ := Text.takeWhile_append hfraction hend
    rw [List.append_assoc, List.cons_append, htake, hdrop]
    split
    · next after hafter =>
      cases hafter
      rw [htake', hdrop', if_neg (fun h => hne h.1)]
      dsimp only
      rw [scanPower_endsLexeme hrest]
    · next hother => exact absurd rfl (hother (fraction ++ rest))

end Numeral

namespace Binary64

theorem toText_of_isFinite {v : Binary64} (h : v.isFinite = true) :
    v.toText = (if v.negative then ['-'] else []) ++ (shortest v.code).toText := by
  rw [toText, h]
  rfl

/-- The numeral in the text of a magnitude has the magnitude as its value. -/
theorem round_of_isWritten {code : Nat} {whole fraction : Text} (hcode : code < infinityCode)
    (h : (shortest code).IsWritten whole fraction) :
    ((⟨whole, fraction, none⟩ : Numeral).toDecimal.round false).code = code := by
  obtain ⟨hround, hexponent⟩ := roundCode_shortest code
  have hlen := h.length_fraction
  have hdecimal : (⟨whole, fraction, none⟩ : Numeral).toDecimal =
      ⟨Nat.ofDigitChars 10 (whole ++ fraction) 0, -(fraction.length : Int)⟩ := by
    simp [toDecimal, powerValue]
  have hread : (⟨whole, fraction, none⟩ : Numeral).toDecimal.roundCode = code := by
    rw [hdecimal, Decimal.roundCode_eq_nearestCode (by dsimp only; omega) (by dsimp only; omega),
      Decimal.numerator_neg, Decimal.denominator_neg,
      nearestCode_congr (Nat.pow_pos (by decide)) (Decimal.denominator_pos _) h.value,
      ← Decimal.roundCode_eq_nearestCode_of_lt (by omega) (by omega), hround]
  rw [Decimal.round, ofCode, hread]
  exact Nat.min_eq_left (Nat.le_of_lt hcode)

end Binary64

end MathMarkup
