import MathMarkup.Expr.Scan

/-!
# Lexemes

The forms of numerals and identifiers as classes of texts, and what it means to cut a text into
the longest lexemes from left to right: as a rule for the result with its columns, and as the pieces
that the text is put together from.
-/
namespace MathMarkup

namespace Numeral

def IsDigits (digit : Char → Bool) (text : Text) : Prop := text ≠ [] ∧ ∀ c ∈ text, digit c

/-- Digits with an optional point after, between or before them. -/
inductive IsMantissa (digit : Char → Bool) : Text → Prop
  | whole {ds : Text} : IsDigits digit ds → IsMantissa digit ds
  | point {ds fs : Text} : IsDigits digit ds → (∀ c ∈ fs, digit c) →
      IsMantissa digit (ds ++ '.' :: fs)
  | fraction {fs : Text} : IsDigits digit fs → IsMantissa digit ('.' :: fs)

/-- An exponent: its mark, an optional sign, and digits. -/
inductive IsPower (digit : Char → Bool) : Text → Prop
  | plain {mark : Char} {ds : Text} : mark = 'e' ∨ mark = 'E' → IsDigits digit ds →
      IsPower digit (mark :: ds)
  | signed {mark sign : Char} {ds : Text} : mark = 'e' ∨ mark = 'E' → sign = '+' ∨ sign = '-' →
      IsDigits digit ds → IsPower digit (mark :: sign :: ds)

inductive IsNumeral (digit : Char → Bool) : Text → Prop
  | plain {m : Text} : IsMantissa digit m → IsNumeral digit m
  | scaled {m p : Text} : IsMantissa digit m → IsPower digit p → IsNumeral digit (m ++ p)

end Numeral

/-- The longest prefix of a text that belongs to a class. -/
structure Text.IsLongestPrefix (member : Text → Prop) (lexeme text : Text) : Prop where
  isMember : member lexeme
  isPrefixOf : lexeme <+: text
  longest : ∀ other, member other → other <+: text → other.length ≤ lexeme.length

namespace Lexeme

/-- The numerals of all scripts. -/
def IsNumber (text : Text) : Prop := Numeral.IsNumeral Text.isDecimalDigit text

/-- What a lexeme at the head of a text is, and the token that it stands for. A numeral comes
before an identifier, and an identifier before punctuation. -/
inductive Reads : Text → Text → Except ParseError.Cause Token → Prop
  | number {lexeme text : Text} {numeral : Numeral} : Text.IsLongestPrefix IsNumber lexeme text →
      lexeme.all Text.isAscii = true → Numeral.scan Char.isDigit lexeme = some (numeral, []) →
      Reads lexeme text (.ok (.number (numeral.toDecimal.round false)))
  | foreign {lexeme text : Text} : Text.IsLongestPrefix IsNumber lexeme text →
      lexeme.all Text.isAscii = false → Reads lexeme text (.error (.invalidNumber lexeme))
  | ident {lexeme text : Text} : (∀ word, word <+: text → ¬ IsNumber word) →
      Text.IsLongestPrefix (fun word => isName word) lexeme text →
      Reads lexeme text (.ok (.ident lexeme))
  | symbol {c : Char} {rest : Text} {token : Token} :
      (∀ word, word <+: c :: rest → ¬ IsNumber word) → isNameStart c = false →
      Token.ofSymbol? c = some token → Reads [c] (c :: rest) (.ok token)
  | stray {c : Char} {rest : Text} : (∀ word, word <+: c :: rest → ¬ IsNumber word) →
      isNameStart c = false → Token.ofSymbol? c = none →
      Reads [c] (c :: rest) (.error (.unexpectedCharacter c))

/-- Cutting a text into lexemes with blanks between them; the first that stands for no token is an
error at its column. -/
inductive Cuts : Nat → Text → Except ParseError (List PlacedToken) → Prop
  | nil {column : Nat} : Cuts column [] (.ok [])
  | blank {column : Nat} {c : Char} {rest : Text} {r : Except ParseError (List PlacedToken)} :
      Text.isBlank c = true → Cuts (column + 1) rest r → Cuts column (c :: rest) r
  | token {column : Nat} {c : Char} {lexeme rest : Text} {token : Token}
      {r : Except ParseError (List PlacedToken)} : Text.isBlank c = false →
      Reads (c :: lexeme) (c :: lexeme ++ rest) (.ok token) →
      Cuts (column + (c :: lexeme).length) rest r →
      Cuts column (c :: lexeme ++ rest) (r.map (⟨token, column⟩ :: ·))
  | error {column : Nat} {c : Char} {lexeme rest : Text} {cause : ParseError.Cause} :
      Text.isBlank c = false → Reads lexeme (c :: rest) (.error cause) →
      Cuts column (c :: rest) (.error ⟨cause, some column⟩)

/-! ## Pieces -/

/-- A stretch of a text: a blank, or a lexeme with the token that it stands for. -/
inductive Piece where
  | blank (c : Char)
  | lexeme (text : Text) (token : Token)

def Piece.text : Piece → Text
  | blank c => [c]
  | lexeme text _ => text

def Piece.token? : Piece → Option Token
  | blank _ => none
  | lexeme _ token => some token

/-- The text that pieces make up. -/
def spelled (pieces : List Piece) : Text := pieces.flatMap Piece.text

/-- The tokens of pieces, each at the column of its lexeme's first character. -/
def placed (column : Nat) : List Piece → List PlacedToken
  | [] => []
  | .blank _ :: pieces => placed (column + 1) pieces
  | .lexeme text token :: pieces => ⟨token, column⟩ :: placed (column + text.length) pieces

/-- The pieces that a text is cut into from the left, up to a rest. -/
inductive Divides : List Piece → Text → Text → Prop
  | nil {rest : Text} : Divides [] rest rest
  | blank {c : Char} {pieces : List Piece} {text rest : Text} : Text.isBlank c = true →
      Divides pieces text rest → Divides (.blank c :: pieces) (c :: text) rest
  | lexeme {c : Char} {word : Text} {token : Token} {pieces : List Piece} {text rest : Text} :
      Text.isBlank c = false → Reads (c :: word) (c :: word ++ text) (.ok token) →
      Divides pieces text rest →
      Divides (.lexeme (c :: word) token :: pieces) (c :: word ++ text) rest

end Lexeme

end MathMarkup
