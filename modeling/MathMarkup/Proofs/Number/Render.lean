import Mathlib
import MathMarkup.Proofs.Number.Integral
import MathMarkup.Proofs.Render.Success
import MathMarkup.Proofs.Scan.Description

/-!
# The text of a number is minimal and exact

A finite number is rendered as a sign, if it is below zero, and digits of which no zero could be
left out. The text is scanned as the sign and the magnitude, so it tells the value.
-/
namespace MathMarkup

open Lexeme Numeral

namespace Binary64

variable {v w : Binary64}

theorem render_eq (h : v.isFinite = true) :
    v.render = .ok ((if v.toRat < 0 then ['-'] else []) ++ (shortest v.code).toText) := by
  rw [render_of_isFinite h, toText_of_isFinite h]
  cases hzero : v.isZero with
  | true =>
    have hcode : v.code = 0 := by simpa [isZero] using hzero
    have hsign : ¬ v.toRat < 0 := by simp [toRat_lt_zero_iff, hzero]
    rw [if_pos rfl, if_neg hsign, hcode]
    rfl
  | false =>
    rw [if_neg Bool.false_ne_true]
    simp only [toRat_lt_zero_iff, hzero, and_true]

/-- What the text of a number is scanned as: a minus sign, if it is below zero, and a magnitude. -/
def placedTokens (v : Binary64) (base : Nat) : List PlacedToken :=
  if v.toRat < 0 then [⟨.operator .sub, base + 1⟩, ⟨.number v.abs, base + 2⟩]
  else [⟨.number v.abs, base + 1⟩]

theorem toRat_eq_of_placedTokens {base : Nat} (h : v.placedTokens base = w.placedTokens base) :
    v.toRat = w.toRat := by
  unfold placedTokens at h
  split at h <;> split at h
  · next hv hw =>
    have habs : v.abs = w.abs := by simpa using h
    exact toRat_congr habs (iff_of_true hv hw)
  · cases h
  · cases h
  · next hv hw =>
    have habs : v.abs = w.abs := by simpa using h
    exact toRat_congr habs (iff_of_false hv hw)

theorem isScannable_abs (h : v.isFinite = true) : (Token.number v.abs).isScannable = true := by
  have hfinite : v.abs.isFinite = true := h
  rw [Token.isScannable, hfinite]
  rfl

theorem tokenize_render {text : Text} (base : Nat) (h : v.render = .ok text) :
    tokenize base text = .ok (v.placedTokens base) := by
  have hfinite := isFinite_of_render h
  have hdescribe : (Token.number v.abs).describe = (shortest v.code).toText :=
    toText_of_isFinite hfinite
  have hmagnitude := (Token.reads_describe (isScannable_abs hfinite)).divides
  rw [hdescribe] at hmagnitude
  rw [render_eq hfinite] at h
  cases h
  refine tokenize_eq_ok_iff.2 ?_
  unfold placedTokens
  split
  · have hminus := Token.scan_of_ofSymbol? (c := '-') rfl (shortest v.code).toText
    exact ⟨_, hmagnitude.cons_of_scan [] rfl hminus, rfl⟩
  · exact ⟨_, hmagnitude, rfl⟩

theorem ne_negative_zero_of_render {text : Text} (h : v.render = .ok text) :
    text ≠ "-0".toList := by
  rintro rfl
  have hscan : tokenize 0 "-0".toList = .ok [⟨.operator .sub, 1⟩, ⟨.number .zero, 2⟩] := by cbv
  have htokens := Except.ok.inj (hscan.symm.trans (tokenize_render 0 h))
  unfold placedTokens at htokens
  split at htokens
  · next hnegative =>
    have habs : zero = v.abs := by simpa using htokens
    have hzero : v.isZero = true := congrArg isZero habs.symm
    rw [(toRat_lt_zero_iff.1 hnegative).2] at hzero
    cases hzero
  · cases htokens

/-- The text of a finite number is minimal and exact. It has no exponent and no zeros that could be
left out, a fraction unless the number is whole, and a sign if the number is below zero. It is
scanned as the sign and the magnitude, and no other value has it. -/
theorem render_minimal_exact (h : v.isFinite = true) :
    ∃ text whole fraction, v.render = .ok text ∧
      text = (if v.toRat < 0 then ['-'] else []) ++ positional whole fraction ∧
      IsMinimal whole fraction ∧ (fraction = [] ↔ ∃ n : ℤ, v.toRat = n) ∧
      'e' ∉ text ∧ 'E' ∉ text ∧ text ≠ "-0".toList ∧ ('-' ∈ text ↔ v.toRat < 0) ∧
      (∀ base, tokenize base text = .ok (v.placedTokens base)) ∧
      ∀ w : Binary64, w.render = .ok text → w.toRat = v.toRat := by
  have hcode : v.code < infinityCode := by simpa [isFinite] using h
  obtain ⟨whole, fraction, hwritten, hminimal⟩ := (shortest v.code).exists_isWritten
  have hrender := render_eq h
  rw [hwritten.toText_eq] at hrender
  have hchar {c : Char} (hdigit : c.isDigit = false) (hpoint : c ≠ '.') :
      c ∉ positional whole fraction := by
    intro hc
    rcases Numeral.isDigit_or_point hminimal.isDigit c hc with hc | hc
    · rw [hdigit] at hc
      cases hc
    · exact hpoint hc
  have he := @hchar 'e' (by decide) (by decide)
  have hE := @hchar 'E' (by decide) (by decide)
  have hminus := @hchar '-' (by decide) (by decide)
  refine ⟨_, whole, fraction, hrender, rfl, hminimal, ?_, ?_, ?_,
    ne_negative_zero_of_render hrender, ?_, fun base => tokenize_render base hrender,
    fun w hw => ?_⟩
  · exact (fraction_eq_nil_iff hcode hwritten).trans exists_intCast_iff.symm
  · split <;> simp [he]
  · split <;> simp [hE]
  · split
    · next hnegative => simp [hnegative]
    · next hsign => simp [hsign, hminus]
  · have hscan := tokenize_render 0 hw
    rw [tokenize_render 0 hrender] at hscan
    exact (toRat_eq_of_placedTokens (Except.ok.inj hscan)).symm

/-- Minus two and a half. -/
theorem render_minimal_exact_half :
    let v := ofCode true 0x4004000000000000
    v.isFinite = true ∧ v.render = .ok "-2.5".toList ∧ v.toRat < 0 ∧ (¬ ∃ n : ℤ, v.toRat = n) ∧
      tokenize 7 "-2.5".toList = .ok [⟨.operator .sub, 8⟩, ⟨.number v.abs, 9⟩] ∧
      ∀ w : Binary64, w.render = .ok "-2.5".toList → w.toRat = v.toRat := by
  intro v
  have hfinite : v.isFinite = true := by decide
  have hrender : v.render = .ok "-2.5".toList := by decide +kernel
  obtain ⟨text, whole, fraction, htext, hform, hminimal, hwhole, -, -, -, hminus, htokens,
    hvalue⟩ := render_minimal_exact hfinite
  cases hrender.symm.trans htext
  have hnegative : v.toRat < 0 := hminus.1 (by decide)
  have hfraction : fraction ≠ [] := by
    rintro rfl
    rw [if_pos hnegative] at hform
    have hdigits : "2.5".toList = whole ++ [] := List.cons.inj hform |>.2
    exact absurd (hminimal.isDigit '.' (hdigits ▸ by decide)) (by decide)
  have hscan := htokens 7
  rw [placedTokens, if_pos hnegative] at hscan
  exact ⟨hfinite, hrender, hnegative, fun h => hfraction (hwhole.2 h), hscan, hvalue⟩

end Binary64

end MathMarkup
