import Mathlib
import MathMarkup.Proofs.Number.Numeral
import MathMarkup.Proofs.Scan.Spelling

/-!
# Scanning cuts off the longest lexeme

The token that a scan takes off the head of a text stands for the longest lexeme there, and what a
scan refuses is the lexeme that stands for none. So the tokens of a text are those of the one way to
cut it into longest lexemes.
-/
namespace MathMarkup

theorem Text.IsLongestPrefix.unique {member : Text → Prop} {a b text : Text}
    (ha : IsLongestPrefix member a text) (hb : IsLongestPrefix member b text) : a = b := by
  have hab := hb.longest a ha.isMember ha.isPrefixOf
  have hba := ha.longest b hb.isMember hb.isPrefixOf
  exact (List.prefix_of_prefix_length_le ha.isPrefixOf hb.isPrefixOf hab).eq_of_length
    (Nat.le_antisymm hab hba)

theorem Numeral.isDigitClass_isDecimalDigit : IsDigitClass Text.isDecimalDigit where
  point := by decide
  mark := by rintro c (rfl | rfl) <;> decide
  sign := by rintro c (rfl | rfl) <;> decide

theorem Numeral.isDigitClass_isDigit : IsDigitClass Char.isDigit where
  point := by decide
  mark := by rintro c (rfl | rfl) <;> decide
  sign := by rintro c (rfl | rfl) <;> decide

/-- The longest name at the head of a text. -/
theorem isLongestPrefix_name {c : Char} (rest : Text) (hc : isNameStart c = true) :
    Text.IsLongestPrefix (fun word => isName word = true) (c :: rest.takeWhile isNamePart)
      (c :: rest) where
  isMember := by
    simp only [isName, hc, Bool.true_and, List.all_eq_true]
    exact fun d hd => List.mem_takeWhile_imp hd
  isPrefixOf := by
    rw [List.prefix_cons_inj]
    exact List.takeWhile_prefix isNamePart
  longest := by
    rintro other hother ⟨after, hafter⟩
    cases other with
    | nil => cases hother
    | cons d word =>
      obtain ⟨rfl, rfl⟩ := List.cons.inj hafter
      simp only [isName, Bool.and_eq_true, List.all_eq_true] at hother
      rw [List.append_eq, List.takeWhile_append_of_pos hother.2, List.length_cons, List.length_cons,
        List.length_append]
      omega

namespace Lexeme

open Numeral

/-- A numeral in digits of ASCII has the value that its text is read as. -/
theorem scan_isDigit {n : Numeral} {lexeme : Text} (h : Writes Text.isDecimalDigit n lexeme)
    (hascii : lexeme.all Text.isAscii = true) : scan Char.isDigit lexeme = some (n, []) :=
  scan_of_writes isDigitClass_isDigit <| h.of_digits fun c hc hdigit =>
    Text.isDigit_of_isDecimalDigit hdigit (List.all_eq_true.1 hascii c hc)

/-- The lexeme that a scan of numerals takes. -/
theorem take_lexeme {c : Char} {rest lexeme after : Text} (h : c :: rest = lexeme ++ after) :
    (c :: rest).take (rest.length + 1 - after.length) = lexeme := by
  rw [← List.length_cons (a := c), h, List.length_append, Nat.add_sub_cancel, List.take_left]

/-! ## One lexeme -/

theorem reads_of_scan_eq_ok {c : Char} {rest after : Text} {token : Token}
    (h : Token.scan c rest = .ok (token, after)) :
    ∃ word, rest = word ++ after ∧ Reads (c :: word) (c :: rest) (.ok token) := by
  unfold Token.scan at h
  split at h
  · next numeral after' hscan =>
    obtain ⟨lexeme, htext, hwrites, hlongest⟩ :=
      isLongestPrefix_of_scan isDigitClass_isDecimalDigit hscan
    obtain ⟨d, word, rfl⟩ := List.exists_cons_of_ne_nil hwrites.ne_nil
    dsimp only at h
    rw [take_lexeme htext] at h
    split at h
    · next hascii =>
      cases h
      cases htext
      exact ⟨word, rfl, .number hlongest hascii (scan_isDigit hwrites hascii)⟩
    · cases h
  · next hscan =>
    have hnumber := not_isNumeral_of_scan isDigitClass_isDecimalDigit hscan
    split at h
    · next hc =>
      cases h
      exact ⟨_, List.takeWhile_append_dropWhile.symm, .ident hnumber (isLongestPrefix_name rest hc)⟩
    · next hc =>
      split at h
      · next htoken =>
        cases h
        exact ⟨[], rfl, .symbol hnumber (by simpa using hc) htoken⟩
      · cases h

theorem reads_of_scan_eq_error {c : Char} {rest : Text} {cause : ParseError.Cause}
    (h : Token.scan c rest = .error cause) : ∃ lexeme, Reads lexeme (c :: rest) (.error cause) := by
  unfold Token.scan at h
  split at h
  · next numeral after hscan =>
    obtain ⟨lexeme, htext, -, hlongest⟩ :=
      isLongestPrefix_of_scan isDigitClass_isDecimalDigit hscan
    dsimp only at h
    rw [take_lexeme htext] at h
    split at h
    · cases h
    · next hascii =>
      cases h
      exact ⟨lexeme, .foreign hlongest (by simpa using hascii)⟩
  · next hscan =>
    have hnumber := not_isNumeral_of_scan isDigitClass_isDecimalDigit hscan
    split at h
    · cases h
    · next hc =>
      split at h
      · cases h
      · next htoken =>
        cases h
        exact ⟨[c], .stray hnumber (by simpa using hc) htoken⟩

/-- A numeral at the head of a text is what the scan of numerals takes. -/
theorem scan_of_isLongestPrefix {lexeme text : Text}
    (h : Text.IsLongestPrefix IsNumber lexeme text) :
    ∃ n, scan Text.isDecimalDigit text = some (n, text.drop lexeme.length) ∧
      scan Text.isDecimalDigit lexeme = some (n, []) := by
  cases hscan : scan Text.isDecimalDigit text with
  | none =>
    exact absurd h.isMember
      (not_isNumeral_of_scan isDigitClass_isDecimalDigit hscan lexeme h.isPrefixOf)
  | some found =>
    obtain ⟨n, after⟩ := found
    obtain ⟨word, rfl, hwrites, hlongest⟩ :=
      isLongestPrefix_of_scan isDigitClass_isDecimalDigit hscan
    obtain rfl := h.unique hlongest
    exact ⟨n, by rw [List.drop_left], scan_of_writes isDigitClass_isDecimalDigit hwrites⟩

theorem scan_eq_none {text : Text} (h : ∀ word, word <+: text → ¬ IsNumber word) :
    scan Text.isDecimalDigit text = none := by
  cases hscan : scan Text.isDecimalDigit text with
  | none => rfl
  | some found =>
    obtain ⟨word, -, -, hlongest⟩ :=
      isLongestPrefix_of_scan isDigitClass_isDecimalDigit hscan
    exact absurd hlongest.isMember (h word hlongest.isPrefixOf)

/-- What stands at the head of a text determines the scan. -/
theorem scan_of_reads {c : Char} {lexeme rest : Text} {r : Except ParseError.Cause Token}
    (h : Reads lexeme (c :: rest) r) :
    Token.scan c rest = r.map fun token => (token, (c :: rest).drop lexeme.length) := by
  have hcut {word : Text} (hword : word <+: c :: rest) :
      (c :: rest).take (rest.length + 1 - ((c :: rest).drop word.length).length) = word := by
    obtain ⟨after, hafter⟩ := hword
    rw [← hafter, List.drop_left]
    exact hafter ▸ take_lexeme hafter.symm
  unfold Token.scan
  cases h with
  | @number _ _ numeral hlongest hascii hnumeral =>
    obtain ⟨n, hscan, hlexeme⟩ := scan_of_isLongestPrefix hlongest
    obtain ⟨word, hword, hwrites⟩ := exists_writes_of_scan hlexeme
    rw [List.append_nil] at hword
    subst hword
    rw [scan_isDigit hwrites hascii] at hnumeral
    cases hnumeral
    rw [hscan]
    dsimp only
    rw [hcut hlongest.isPrefixOf, if_pos hascii]
    rfl
  | foreign hlongest hascii =>
    obtain ⟨n, hscan, -⟩ := scan_of_isLongestPrefix hlongest
    rw [hscan]
    dsimp only
    rw [hcut hlongest.isPrefixOf, if_neg (by simp [hascii])]
    rfl
  | ident hnumber hlongest =>
    rw [scan_eq_none hnumber]
    have hc : isNameStart c = true := by
      obtain ⟨after, hafter⟩ := hlongest.isPrefixOf
      have hname := hlongest.isMember
      cases lexeme with
      | nil => cases hname
      | cons d word =>
        cases hafter
        simp only [isName, Bool.and_eq_true] at hname
        exact hname.1
    obtain rfl := hlongest.unique (isLongestPrefix_name rest hc)
    have hdrop : rest.drop (rest.takeWhile isNamePart).length = rest.dropWhile isNamePart := by
      have hleft := @List.drop_left _ (rest.takeWhile isNamePart) (rest.dropWhile isNamePart)
      rwa [List.takeWhile_append_dropWhile] at hleft
    dsimp only
    rw [if_pos hc, List.length_cons, List.drop_succ_cons, hdrop]
    rfl
  | symbol hnumber hc htoken =>
    rw [scan_eq_none hnumber]
    dsimp only
    rw [if_neg (by simp [hc]), htoken]
    rfl
  | stray hnumber hc htoken =>
    rw [scan_eq_none hnumber]
    dsimp only
    rw [if_neg (by simp [hc]), htoken]
    rfl

end Lexeme

end MathMarkup
