import Mathlib
import MathMarkup.Proofs.Scan.Bytes

/-!
# Scanning is longest-match lexing

The result of scanning is the one that cutting a text into longest lexemes gives. A text that has
tokens is put together from their lexemes and from blanks, and a text that has none is so up to the
first character where no lexeme stands for a token.
-/
namespace MathMarkup

namespace Lexeme

variable {column : Nat} {text rest : Text} {pieces : List Piece}
  {r : Except ParseError (List PlacedToken)}

/-! ## The result of cutting -/

theorem cuts_scanFrom (column : Nat) (text : Text) : Cuts column text (scanFrom column text) := by
  have htoken {column : Nat} {c : Char} {rest after : Text} {token : Token}
      {r : Except ParseError (List PlacedToken)} (hc : Text.isBlank c = false)
      (h : Token.scan c rest = .ok (token, after))
      (hrest : Cuts (column + (rest.length + 1 - after.length)) after r) :
      Cuts column (c :: rest) (r.map (⟨token, column⟩ :: ·)) := by
    obtain ⟨word, rfl, hreads⟩ := reads_of_scan_eq_ok h
    refine .token hc hreads ?_
    rwa [List.length_append, Nat.add_right_comm, Nat.add_sub_cancel, ← List.length_cons] at hrest
  fun_induction scanFrom column text with
  | case1 column => exact .nil
  | case2 column c rest hc ih => exact .blank hc ih
  | case3 column c rest hc cause h =>
    obtain ⟨lexeme, hreads⟩ := reads_of_scan_eq_error h
    exact .error (by simpa using hc) hreads
  | case4 column c rest hc token after h e hs ih =>
    rw [hs] at ih
    exact htoken (by simpa using hc) h ih
  | case5 column c rest hc token after h tokens hs ih =>
    rw [hs] at ih
    exact htoken (by simpa using hc) h ih

theorem eq_scanFrom_of_cuts (h : Cuts column text r) : r = scanFrom column text := by
  induction h with
  | nil => rw [scanFrom_nil]
  | blank hc _ ih => rw [scanFrom_blank hc, ih]
  | @token column c word rest token r hc hreads _ ih =>
    have hreads : Reads (c :: word) (c :: (word ++ rest)) (.ok token) := hreads
    have hscan : Token.scan c (word ++ rest) = .ok (token, rest) := by
      rw [scan_of_reads hreads, ← List.cons_append, List.drop_left]
      rfl
    have hlength : (word ++ rest).length + 1 - rest.length = (c :: word).length := by
      simp only [List.length_append, List.length_cons]
      omega
    rw [List.cons_append, scanFrom_token hc hscan, hlength, ih]
  | error hc hreads => rw [scanFrom_error hc (scan_of_reads hreads)]

theorem cuts_iff : Cuts column text r ↔ r = scanFrom column text := by
  constructor
  · exact eq_scanFrom_of_cuts
  · rintro rfl
    exact cuts_scanFrom column text

/-! ## Pieces -/

theorem Divides.eq_append (h : Divides pieces text rest) : text = spelled pieces ++ rest := by
  induction h with
  | nil => rfl
  | blank _ _ ih => rw [ih]; rfl
  | lexeme _ _ _ ih => rw [ih]; exact (List.append_assoc ..).symm

/-- A token's column counts the characters in front of its lexeme. -/
theorem placed_append (column : Nat) (before after : List Piece) :
    placed column (before ++ after) =
      placed column before ++ placed (column + (spelled before).length) after := by
  induction before generalizing column with
  | nil => rfl
  | cons piece before ih =>
    have hlength : (spelled (piece :: before)).length =
        piece.text.length + (spelled before).length := List.length_append
    rw [hlength]
    cases piece with
    | blank c => rw [List.cons_append, placed, placed, ih, Nat.add_assoc]; rfl
    | lexeme text token => rw [List.cons_append, placed, placed, ih, Nat.add_assoc]; rfl

theorem map_token_placed (column : Nat) (pieces : List Piece) :
    (placed column pieces).map PlacedToken.token = pieces.filterMap Piece.token? := by
  induction pieces generalizing column with
  | nil => rfl
  | cons piece pieces ih =>
    cases piece with
    | blank c => exact ih _
    | lexeme word token => exact congrArg (token :: ·) (ih _)

/-- Pieces in front of a rest add their tokens to what is cut off the rest. -/
theorem Divides.cuts (h : Divides pieces text rest)
    (hrest : Cuts (column + (spelled pieces).length) rest r) :
    Cuts column text (r.map (placed column pieces ++ ·)) := by
  induction h generalizing column with
  | nil =>
    have hmap : r.map (placed column [] ++ ·) = r := by cases r <;> rfl
    rwa [hmap]
  | @blank c pieces text rest hc _ ih =>
    have hlength : column + (spelled (.blank c :: pieces)).length =
        column + 1 + (spelled pieces).length := by
      rw [Nat.add_assoc, Nat.add_comm 1]
      rfl
    exact .blank hc (ih (hlength ▸ hrest))
  | @lexeme c word token pieces text rest hc hreads _ ih =>
    have hlength : column + (spelled (.lexeme (c :: word) token :: pieces)).length =
        column + (c :: word).length + (spelled pieces).length := by
      rw [Nat.add_assoc]
      exact congrArg (column + ·) List.length_append
    have hcuts := Cuts.token hc hreads (ih (hlength ▸ hrest))
    have hmap : (r.map (placed (column + (c :: word).length) pieces ++ ·)).map
        (⟨token, column⟩ :: ·) =
        r.map (placed column (.lexeme (c :: word) token :: pieces) ++ ·) := by cases r <;> rfl
    rwa [hmap] at hcuts

/-- Where cutting ends: at the end of the text, or in front of what stands for no token. -/
theorem exists_divides (h : Cuts column text r) :
    (∃ pieces, Divides pieces text [] ∧ r = .ok (placed column pieces)) ∨
    ∃ pieces c rest lexeme cause, Divides pieces text (c :: rest) ∧ Text.isBlank c = false ∧
      Reads lexeme (c :: rest) (.error cause) ∧
      r = .error ⟨cause, some (column + (spelled pieces).length)⟩ := by
  induction h with
  | nil => exact .inl ⟨[], .nil, rfl⟩
  | @blank column c text r hc _ ih =>
    rcases ih with ⟨pieces, hpieces, rfl⟩ | ⟨pieces, d, rest, lexeme, cause, hpieces, hd, hr, rfl⟩
    · exact .inl ⟨_, .blank hc hpieces, rfl⟩
    · refine .inr ⟨_, d, rest, lexeme, cause, .blank hc hpieces, hd, hr, ?_⟩
      rw [Nat.add_assoc, Nat.add_comm 1]
      rfl
  | @token column c word text token r hc hreads _ ih =>
    rcases ih with ⟨pieces, hpieces, rfl⟩ | ⟨pieces, d, rest, lexeme, cause, hpieces, hd, hr, rfl⟩
    · exact .inl ⟨_, .lexeme hc hreads hpieces, rfl⟩
    · refine .inr ⟨_, d, rest, lexeme, cause, .lexeme hc hreads hpieces, hd, hr, ?_⟩
      rw [Nat.add_assoc, ← List.length_append]
      rfl
  | @error column c lexeme rest cause hc hreads =>
    exact .inr ⟨[], c, rest, lexeme, cause, .nil, hc, hreads, rfl⟩

/-- The message of a lexeme that stands for no token shows it. -/
theorem message_of_reads {lexeme : Text} {cause : ParseError.Cause}
    (h : Reads lexeme text (.error cause)) :
    cause.message = "invalid number '" ++ String.ofList lexeme ++ "'" ∨
      cause.message = "unexpected character '" ++ String.ofList lexeme ++ "'" := by
  unfold ParseError.Cause.message
  cases h with
  | foreign => exact .inl rfl
  | stray => exact .inr (by rw [← String.singleton_eq_ofList])

end Lexeme

open Lexeme

theorem tokenize_eq_ok_iff {base : Nat} {text : Text} {tokens : List PlacedToken} :
    tokenize base text = .ok tokens ↔
      ∃ pieces, Divides pieces text [] ∧ tokens = placed (base + 1) pieces := by
  constructor
  · intro h
    rcases exists_divides (cuts_scanFrom (base + 1) text) with ⟨pieces, hpieces, hr⟩ |
      ⟨pieces, c, rest, lexeme, cause, -, -, -, hr⟩
    · exact ⟨pieces, hpieces, Except.ok.inj (h.symm.trans hr)⟩
    · cases h.symm.trans hr
  · rintro ⟨pieces, hpieces, rfl⟩
    have hcuts : Cuts (base + 1) text (.ok (placed (base + 1) pieces ++ [])) := hpieces.cuts .nil
    rw [List.append_nil] at hcuts
    exact (eq_scanFrom_of_cuts hcuts).symm

/-- The tokens of a text are those of the pieces that it is cut into. -/
theorem Token.ofText_eq_ok_iff {text : Text} {ts : List Token} :
    Token.ofText text = .ok ts ↔
      ∃ pieces, Divides pieces text [] ∧ ts = pieces.filterMap Piece.token? := by
  constructor
  · intro h
    obtain ⟨tokens, hscan, rfl⟩ := tokenize_of_ofText 0 h
    obtain ⟨pieces, hpieces, rfl⟩ := tokenize_eq_ok_iff.1 hscan
    exact ⟨pieces, hpieces, map_token_placed _ pieces⟩
  · rintro ⟨pieces, hpieces, rfl⟩
    have hscan : tokenize 0 text = .ok (placed 1 pieces) :=
      tokenize_eq_ok_iff.2 ⟨pieces, hpieces, rfl⟩
    rw [ofText_of_tokenize hscan, map_token_placed]

theorem tokenize_eq_error_iff {base : Nat} {text : Text} {e : ParseError} :
    tokenize base text = .error e ↔
      ∃ pieces c rest lexeme cause, Divides pieces text (c :: rest) ∧ Text.isBlank c = false ∧
        Reads lexeme (c :: rest) (.error cause) ∧
        e = ⟨cause, some (base + 1 + (spelled pieces).length)⟩ := by
  constructor
  · intro h
    rcases exists_divides (cuts_scanFrom (base + 1) text) with ⟨pieces, -, hr⟩ |
      ⟨pieces, c, rest, lexeme, cause, hpieces, hc, hreads, hr⟩
    · cases h.symm.trans hr
    · exact ⟨pieces, c, rest, lexeme, cause, hpieces, hc, hreads,
        Except.error.inj (h.symm.trans hr)⟩
  · rintro ⟨pieces, c, rest, lexeme, cause, hpieces, hc, hreads, rfl⟩
    exact (eq_scanFrom_of_cuts (hpieces.cuts (.error hc hreads))).symm

/-- Scanning reads every text by longest matches. It never looks inside of a character; its result
is that of cutting off one longest lexeme after the other; a text has tokens just when it is put
together from blanks and from lexemes that stand for them, and each stands at the column after the
characters in front of its lexeme; and any other text fails at the first character, past such
pieces, where none of them begins. -/
theorem tokenize_longest_match (base : Nat) (text : Text) :
    scanAt text 0 (base + 1) = some (tokenize base text) ∧
    (∀ r, Cuts (base + 1) text r ↔ r = tokenize base text) ∧
    (∀ tokens, tokenize base text = .ok tokens ↔
      ∃ pieces, Divides pieces text [] ∧ text = spelled pieces ∧
        tokens = placed (base + 1) pieces) ∧
    (∀ before lexeme token after,
      placed (base + 1) (before ++ .lexeme lexeme token :: after) =
        placed (base + 1) before ++ ⟨token, base + 1 + (spelled before).length⟩ ::
          placed (base + 1 + (spelled before ++ lexeme).length) after) ∧
    (∀ e, tokenize base text = .error e ↔
      ∃ pieces c rest lexeme cause, Divides pieces text (c :: rest) ∧
        text = spelled pieces ++ c :: rest ∧ Text.isBlank c = false ∧
        Reads lexeme (c :: rest) (.error cause) ∧
        (cause.message = "invalid number '" ++ String.ofList lexeme ++ "'" ∨
          cause.message = "unexpected character '" ++ String.ofList lexeme ++ "'") ∧
        e = ⟨cause, some (base + 1 + (spelled pieces).length)⟩) := by
  refine ⟨scanAt_byteCount [] text (base + 1), fun r => cuts_iff, fun tokens => ?_,
    fun before lexeme token after => ?_, fun e => ?_⟩
  · rw [tokenize_eq_ok_iff]
    constructor
    · rintro ⟨pieces, hpieces, rfl⟩
      exact ⟨pieces, hpieces, by simpa using hpieces.eq_append, rfl⟩
    · rintro ⟨pieces, hpieces, -, rfl⟩
      exact ⟨pieces, hpieces, rfl⟩
  · rw [placed_append, placed, List.length_append, ← Nat.add_assoc]
  · rw [tokenize_eq_error_iff]
    constructor
    · rintro ⟨pieces, c, rest, lexeme, cause, hpieces, hc, hreads, rfl⟩
      exact ⟨pieces, c, rest, lexeme, cause, hpieces, hpieces.eq_append, hc, hreads,
        message_of_reads hreads, rfl⟩
    · rintro ⟨pieces, c, rest, lexeme, cause, hpieces, -, hc, hreads, -, rfl⟩
      exact ⟨pieces, c, rest, lexeme, cause, hpieces, hc, hreads, rfl⟩

end MathMarkup
