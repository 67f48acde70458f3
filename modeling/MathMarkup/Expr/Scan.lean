import MathMarkup.Expr.ParseError
import MathMarkup.Number.Numeral
import MathMarkup.Text.Blank
import MathMarkup.Text.Digit

/-!
# Scanning

A text is cut into tokens from left to right: blanks are skipped, and at any other character the
longest numeral is taken, else the longest identifier, else one character of punctuation.
-/
namespace MathMarkup

/-- Whether an identifier may start with the character. -/
def isNameStart (c : Char) : Bool := c.isAlpha || c = '_'

/-- Whether an identifier may go on with the character. -/
def isNamePart (c : Char) : Bool := c.isAlphanum || c = '_'

/-- Whether a text is an identifier. -/
def isName : Text → Bool
  | [] => false
  | c :: rest => isNameStart c && rest.all isNamePart

namespace Token

/-- The token at the head of `c :: rest`, where `c` is not blank, and the text after it.
A numeral with digits outside ASCII is taken whole and then refused. -/
def scan (c : Char) (rest : Text) : Except ParseError.Cause (Token × Text) :=
  match Numeral.scan Text.isDecimalDigit (c :: rest) with
  | some (numeral, after) =>
    let lexeme := (c :: rest).take (rest.length + 1 - after.length)
    if lexeme.all Text.isAscii then .ok (number (numeral.toDecimal.round false), after)
    else .error (.invalidNumber lexeme)
  | none =>
    if isNameStart c then .ok (ident (c :: rest.takeWhile isNamePart), rest.dropWhile isNamePart)
    else
      match ofSymbol? c with
      | some token => .ok (token, rest)
      | none => .error (.unexpectedCharacter c)

end Token

theorem Token.scan_length_le {c : Char} {rest after : Text} {token : Token}
    (h : Token.scan c rest = .ok (token, after)) : after.length ≤ rest.length := by
  unfold Token.scan at h
  split at h
  · next numeral after' hs =>
    have hlt := Numeral.scan_length_lt hs
    dsimp only at h
    split at h
    · simp only [Except.ok.injEq, Prod.mk.injEq] at h
      rw [← h.2]
      exact Nat.le_of_lt_succ hlt
    · simp at h
  · split at h
    · simp only [Except.ok.injEq, Prod.mk.injEq] at h
      rw [← h.2]
      exact (List.dropWhile_sublist _).length_le
    · split at h
      · simp only [Except.ok.injEq, Prod.mk.injEq] at h
        exact Nat.le_of_eq (congrArg List.length h.2.symm)
      · simp at h

/-- The tokens of a text whose first character stands at the given column. -/
def scanFrom (column : Nat) (text : Text) : Except ParseError (List PlacedToken) :=
  match text with
  | [] => .ok []
  | c :: rest =>
    if Text.isBlank c then scanFrom (column + 1) rest
    else
      match _h : Token.scan c rest with
      | .error cause => .error ⟨cause, some column⟩
      | .ok (token, after) =>
        match scanFrom (column + (rest.length + 1 - after.length)) after with
        | .error e => .error e
        | .ok tokens => .ok (⟨token, column⟩ :: tokens)
termination_by text.length
decreasing_by
  · simp
  · exact Nat.lt_succ_of_le (Token.scan_length_le _h)

/-- The tokens of a text that follows `base` characters of the input. -/
def tokenize (base : Nat) (text : Text) : Except ParseError (List PlacedToken) :=
  scanFrom (base + 1) text

end MathMarkup
