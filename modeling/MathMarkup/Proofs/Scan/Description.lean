import Mathlib
import MathMarkup.Proofs.Scan.Blanks

/-!
# Descriptions read back

A token is described by a text that is read as the token. So the descriptions of any tokens, with a
blank between each two of them, are scanned as these tokens.
-/
namespace MathMarkup

open Lexeme

/-! ## One description -/

namespace Token

/-- Whether there is a text that is scanned as the token: numbers have no sign of their own and are
finite, and identifiers have their proper form. -/
def isScannable : Token → Bool
  | number v => v.isFinite && !v.negative
  | ident name => isName name
  | operator _ | opening | closing => true

theorem spells_describe {t : Token} (h : t.isScannable = true) : Spells t.describe [t] := by
  cases t with
  | number v =>
    simp only [isScannable, Bool.and_eq_true, Bool.not_eq_true'] at h
    obtain ⟨hfinite, hsign⟩ := h
    rw [describe, Binary64.toText_of_isFinite hfinite, hsign]
    exact Spells.number hsign hfinite
  | ident name => exact Spells.ident h
  | operator op => exact Spells.nil.symbol_cons (by cases op <;> rfl)
  | opening => exact Spells.nil.symbol_cons rfl
  | closing => exact Spells.nil.symbol_cons rfl

theorem solid_describe {t : Token} (h : t.isScannable = true) :
    ∀ c ∈ t.describe, Text.isBlank c = false := by
  cases t with
  | number v =>
    simp only [isScannable, Bool.and_eq_true, Bool.not_eq_true'] at h
    rw [describe, Binary64.toText_of_isFinite h.1, h.2]
    intro c hc
    rcases Decimal.isDigit_or_point c hc with hdigit | rfl
    · exact (isBlank_of_isNamePart (isNamePart_of_isDigit hdigit)).1
    · decide
  | ident name => exact solid_of_isName h
  | operator op => cases op <;> simp [describe, BinaryOp.symbol] <;> decide
  | opening => simp [describe]; decide
  | closing => simp [describe]; decide

end Token

namespace Lexeme

/-- A text without blanks that spells a single token is the lexeme of that token. -/
theorem reads_of_spells {text : Text} {t : Token} (h : Spells text [t])
    (hsolid : ∀ c ∈ text, Text.isBlank c = false) : Reads text text (.ok t) := by
  obtain ⟨pieces, hpieces, htokens⟩ := Token.ofText_eq_ok_iff.1 h.ofText
  cases hpieces with
  | nil => cases htokens
  | @blank c pieces rest _ hc _ =>
    rw [hsolid c List.mem_cons_self] at hc
    cases hc
  | @lexeme c word token pieces rest _ hc hreads hrest =>
    obtain ⟨rfl, hnone⟩ := List.cons.inj htokens
    cases hrest with
    | nil => rwa [List.append_nil] at hreads ⊢
    | @blank d pieces rest _ hd _ =>
      rw [hsolid d (by simp)] at hd
      cases hd
    | lexeme => cases hnone

end Lexeme

/-! ## All descriptions -/

namespace Token

/-- The descriptions of tokens, with a blank between each two of them. -/
def describeAll (ts : List Token) : Text := Text.join [' '] (ts.map describe)

theorem reads_describe {t : Token} (h : t.isScannable = true) :
    Reads t.describe t.describe (.ok t) :=
  reads_of_spells (spells_describe h) (solid_describe h)

/-- The pieces that descriptions are made of. -/
def described : List Token → List Piece
  | [] => []
  | [t] => [.lexeme t.describe t]
  | t :: ts => .lexeme t.describe t :: .blank ' ' :: described ts

theorem divides_described {ts : List Token} (h : ∀ t ∈ ts, t.isScannable = true) :
    Divides (described ts) (describeAll ts) [] := by
  induction ts with
  | nil => exact .nil
  | cons t ts ih =>
    have ht := h t List.mem_cons_self
    have hts := ih fun u hu => h u (List.mem_cons_of_mem t hu)
    cases ts with
    | nil =>
      rw [described, describeAll, List.map_singleton, Text.join_singleton]
      exact (reads_describe ht).divides
    | cons u ts =>
      have hblank : ∀ c ∈ (' ' :: describeAll (u :: ts)).head?, Text.isBlank c = true := by
        rintro c ⟨⟩
        rfl
      have hreads := (reads_describe ht).append hblank
      rw [described, describeAll, List.map_cons, List.map_cons, Text.join_cons_cons]
      · exact hreads.cons_lexeme (.blank rfl hts)
      · simp

theorem filterMap_described (ts : List Token) : (described ts).filterMap Piece.token? = ts := by
  induction ts with
  | nil => rfl
  | cons t ts ih =>
    cases ts with
    | nil => rfl
    | cons u ts => exact congrArg (t :: ·) ih

/-- The pieces in front of a token. -/
def leading (before : List Token) : List Piece :=
  before.flatMap fun u => [.lexeme u.describe u, .blank ' ']

theorem described_append (before : List Token) (t : Token) (after : List Token) :
    ∃ pieces, described (before ++ t :: after) =
      leading before ++ .lexeme t.describe t :: pieces := by
  induction before with
  | nil => cases after <;> exact ⟨_, rfl⟩
  | cons u before ih =>
    obtain ⟨pieces, hpieces⟩ := ih
    have hnext : described (u :: (before ++ t :: after)) =
        .lexeme u.describe u :: .blank ' ' :: described (before ++ t :: after) := by
      cases before <;> rfl
    refine ⟨pieces, ?_⟩
    rw [List.cons_append, hnext, hpieces]
    rfl

theorem spelled_leading (before : List Token) :
    spelled (leading before) = before.flatMap fun u => u.describe ++ [' '] := by
  induction before with
  | nil => rfl
  | cons u before ih =>
    rw [List.flatMap_cons, ← ih]
    simp [leading, spelled, Piece.text]

theorem length_placed_leading (column : Nat) (before : List Token) :
    (placed column (leading before)).length = before.length := by
  induction before generalizing column with
  | nil => rfl
  | cons u before ih => exact congrArg (· + 1) (ih _)

end Token

open Token

/-- Descriptions with a blank between each two of them are scanned as the tokens that they describe,
each of these at the column of its first character. -/
theorem tokenize_describeAll (base : Nat) (ts : List Token)
    (h : ∀ t ∈ ts, t.isScannable = true) :
    ∃ tokens, tokenize base (describeAll ts) = .ok tokens ∧
      tokens.map PlacedToken.token = ts ∧
      ∀ before t after, ts = before ++ t :: after →
        ∃ front back, describeAll ts = front ++ t.describe ++ back ∧
          front = before.flatMap (fun u => u.describe ++ [' ']) ∧
          tokens[before.length]? = some ⟨t, base + 1 + front.length⟩ := by
  have hdivides := divides_described h
  refine ⟨placed (base + 1) (described ts), tokenize_eq_ok_iff.2 ⟨_, hdivides, rfl⟩, ?_, ?_⟩
  · rw [map_token_placed, filterMap_described]
  · rintro before t after rfl
    obtain ⟨pieces, hpieces⟩ := described_append before t after
    have htext := hdivides.eq_append
    rw [hpieces] at htext
    refine ⟨spelled (leading before), spelled pieces, ?_, spelled_leading before, ?_⟩
    · simpa [spelled, Piece.text] using htext
    · have hlength := length_placed_leading (base + 1) before
      rw [hpieces, placed_append, placed, ← hlength, List.getElem?_append_right (Nat.le_refl _),
        Nat.sub_self]
      rfl

/-- Names like exponents next to the least and the largest number. -/
theorem tokenize_describeAll_exponents :
    let least := Binary64.ofCode false 1
    let largest := Binary64.ofCode false (Binary64.infinityCode - 1)
    let ts : List Token := [.ident "e5".toList, .number least, .ident ['E'], .operator .sub,
      .number largest]
    (∀ t ∈ ts, t.isScannable = true) ∧
    ∃ tokens, tokenize 7 (describeAll ts) = .ok tokens ∧ tokens.map PlacedToken.token = ts ∧
      tokens[1]? = some ⟨.number least, 11⟩ := by
  intro least largest ts
  have hts : ∀ t ∈ ts, t.isScannable = true := by decide
  obtain ⟨tokens, hscan, hkinds, hcolumns⟩ := tokenize_describeAll 7 ts hts
  obtain ⟨front, back, -, rfl, hcolumn⟩ := hcolumns [.ident "e5".toList] (.number least) _ rfl
  exact ⟨hts, tokens, hscan, hkinds, hcolumn⟩

end MathMarkup
