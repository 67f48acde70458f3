import MathMarkup.Expr.Function
import MathMarkup.Expr.Lexeme

/-!
# What parse errors are about

The place that a parse error names, told by the tokens before and after it: which parentheses have
a partner, where an operand may begin or end, and for each fault what its place looks like. Nothing
here says how a text is read.
-/
namespace MathMarkup

namespace Token

/-- Whether the token may be the first of an operand without a sign. -/
def startsOperand : Token → Bool
  | number _ | ident _ | opening => true
  | operator _ | closing => false

/-- Whether the token may be the last of an operand. -/
def endsOperand : Token → Bool
  | number _ | ident _ | closing => true
  | operator _ | opening => false

/-- Whether an operand has to come after the token. -/
def awaitsOperand : Token → Bool
  | operator _ | opening => true
  | number _ | ident _ | closing => false

end Token

namespace Parse

/-! ## Partners of parentheses -/

/-- All parentheses among the tokens are in pairs. -/
inductive Balanced : List Token → Prop
  | nil : Balanced []
  | plain {t : Token} {ts : List Token} : t ≠ .opening → t ≠ .closing → Balanced ts →
      Balanced (t :: ts)
  | pair {inner ts : List Token} : Balanced inner → Balanced ts →
      Balanced (.opening :: (inner ++ .closing :: ts))

/-- An opening parenthesis has its partner among the tokens after it. -/
def ClosedIn (after : List Token) : Prop :=
  ∃ inner rest, after = inner ++ .closing :: rest ∧ Balanced inner

/-- A closing parenthesis has its partner among the tokens before it. -/
def OpenedIn (before : List Token) : Prop :=
  ∃ rest inner, before = rest ++ .opening :: inner ∧ Balanced inner

/-! ## Places -/

/-- What the place of a fault looks like, and the text that reports it:
`Diagnosis before t after cause report` is true of a token `t` between the other tokens of its
side. -/
inductive Diagnosis : List Token → Token → List Token → ParseError.Cause → String → Prop
  /-- The rightmost opening parenthesis without a partner. -/
  | unclosed {before after : List Token} : ¬ ClosedIn after →
      (∀ inner rest, after = inner ++ .opening :: rest → ClosedIn rest) →
      Diagnosis before .opening after .unclosed "unbalanced parentheses: unclosed '('"
  /-- The first closing parenthesis without a partner. -/
  | unmatched {before after : List Token} : ¬ OpenedIn before →
      (∀ rest inner, before = rest ++ .closing :: inner → OpenedIn rest) →
      Diagnosis before .closing after .unmatched "unbalanced parentheses: unmatched ')'"
  | emptyParentheses {before after : List Token} :
      Diagnosis before .opening (.closing :: after) .emptyParentheses "empty parentheses"
  /-- An operator with nothing on its right. -/
  | nothingRight {before after : List Token} {op : BinaryOp} :
      (∀ t ∈ after.head?, t = .closing) →
      Diagnosis before (.operator op) after (.missingOperand op)
        ("operator '" ++ String.singleton op.symbol ++ "' is missing an operand")
  /-- An operator that is no sign, with nothing on its left. -/
  | nothingLeft {before after : List Token} {op : BinaryOp} : op = .mul ∨ op = .div →
      (∀ t ∈ before.getLast?, t.awaitsOperand) →
      Diagnosis before (.operator op) after (.missingOperand op)
        ("operator '" ++ String.singleton op.symbol ++ "' is missing an operand")
  | unexpected {before after : List Token} {last t : Token} : last.endsOperand →
      t.startsOperand → Diagnosis (before ++ [last]) t after (.unexpected t)
        ("unexpected '" ++ String.ofList t.describe ++ "'")
  | expectedClosing {before after : List Token} {last t : Token} : last.endsOperand →
      t.startsOperand → Diagnosis (before ++ [last]) t after (.expectedClosing t)
        ("expected ')', found '" ++ String.ofList t.describe ++ "'")
  | unknownFunction {before after : List Token} {name : Text} :
      ElementaryFunction.ofName? name = none →
      Diagnosis before (.ident name) (.opening :: after) (.unknownFunction name)
        ("unrecognized function '" ++ String.ofList name ++ "'")

open Lexeme

/-- What an error and its text say about a side that follows the characters `start` of the input.
They name the first character of the side, the first that no token begins with, or the first of a
token. -/
inductive Blames (start side : Text) : ParseError → String → Prop
  | emptySide {pieces : List Piece} : Divides pieces side [] →
      pieces.filterMap Piece.token? = [] →
      Blames start side ⟨.emptySide, some (start.length + 1)⟩ "empty sub-expression"
  | invalidNumber {pieces : List Piece} {c : Char} {rest lexeme : Text} :
      Divides pieces side (c :: rest) → Text.isBlank c = false →
      Reads lexeme (c :: rest) (.error (.invalidNumber lexeme)) →
      Blames start side ⟨.invalidNumber lexeme, some ((start ++ spelled pieces).length + 1)⟩
        ("invalid number '" ++ String.ofList lexeme ++ "'")
  | unexpectedCharacter {pieces : List Piece} {c : Char} {rest : Text} :
      Divides pieces side (c :: rest) → Text.isBlank c = false →
      Reads [c] (c :: rest) (.error (.unexpectedCharacter c)) →
      Blames start side ⟨.unexpectedCharacter c, some ((start ++ spelled pieces).length + 1)⟩
        ("unexpected character '" ++ String.singleton c ++ "'")
  | token {before after : List Piece} {word : Text} {t : Token} {cause : ParseError.Cause}
      {report : String} : Divides (before ++ .lexeme word t :: after) side [] →
      Diagnosis (before.filterMap Piece.token?) t (after.filterMap Piece.token?) cause report →
      Blames start side ⟨cause, some ((start ++ spelled before).length + 1)⟩ report

end Parse

end MathMarkup
