import MathMarkup.Expr.Token

/-!
# Parse errors

The ways in which a text fails to be an equation, with the column they are reported at.
-/
namespace MathMarkup

inductive ParseError.Cause where
  | emptySide
  | invalidNumber (lexeme : Text)
  | unexpectedCharacter (c : Char)
  | missingOperand (op : BinaryOp)
  | unclosed
  | unmatched
  | emptyParentheses
  | unexpectedEnd
  | unexpected (found : Token)
  | expectedClosing (found : Token)
  | unknownFunction (name : Text)
  | notSingle
  deriving DecidableEq

/-- The column counts characters of the whole input from one; an error about the input as a whole
has none. -/
structure ParseError where
  cause : ParseError.Cause
  column : Option Nat
  deriving DecidableEq

namespace ParseError

def Cause.message : Cause → String
  | emptySide => "empty sub-expression"
  | invalidNumber lexeme => "invalid number '" ++ String.ofList lexeme ++ "'"
  | unexpectedCharacter c => "unexpected character '" ++ String.singleton c ++ "'"
  | missingOperand op => "operator '" ++ String.singleton op.symbol ++ "' is missing an operand"
  | unclosed => "unbalanced parentheses: unclosed '('"
  | unmatched => "unbalanced parentheses: unmatched ')'"
  | emptyParentheses => "empty parentheses"
  | unexpectedEnd => "unexpected end of expression"
  | unexpected found => "unexpected '" ++ String.ofList found.describe ++ "'"
  | expectedClosing found => "expected ')', found '" ++ String.ofList found.describe ++ "'"
  | unknownFunction name => "unrecognized function '" ++ String.ofList name ++ "'"
  | notSingle => "expected a single expression, found '='"

def message (e : ParseError) : String :=
  match e.column with
  | some column => "Parse error at column " ++ toString column ++ ": " ++ e.cause.message
  | none => "Parse error: " ++ e.cause.message

end ParseError

end MathMarkup
