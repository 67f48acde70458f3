import MathMarkup.Expr.Basic
import MathMarkup.Number.Shortest

/-!
# Tokens

What an expression's text is made of. A placed token also knows the column of its first character,
counted from one over the whole input.
-/
namespace MathMarkup

inductive Token where
  | number (value : Binary64)
  | ident (name : Text)
  | operator (op : BinaryOp)
  | opening
  | closing
  deriving DecidableEq

namespace Token

/-- A text that reads as the token. -/
def describe : Token → Text
  | number v => v.toText
  | ident name => name
  | operator op => [op.symbol]
  | opening => ['(']
  | closing => [')']

def isOperator : Token → Bool
  | operator _ => true
  | _ => false

/-- The token that one character of punctuation stands for. -/
def ofSymbol? : Char → Option Token
  | '+' => some (operator .add)
  | '-' => some (operator .sub)
  | '*' => some (operator .mul)
  | '/' => some (operator .div)
  | '(' => some opening
  | ')' => some closing
  | _ => none

end Token

structure PlacedToken where
  token : Token
  column : Nat
  deriving DecidableEq

end MathMarkup
