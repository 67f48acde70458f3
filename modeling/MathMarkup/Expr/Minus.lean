import MathMarkup.Expr.Render
import MathMarkup.Expr.Reread
import MathMarkup.Expr.Subtree

/-!
# Minus signs after operators

Where a minus sign comes right after an operator: in markup, and in the expression that it is of.
-/
namespace MathMarkup

namespace Markup

/-- Whether a text begins with the symbol of an operation and goes on with a minus sign. Braces that
end the control word do not count, nor do spaces. -/
def leadsToMinus (op : BinaryOp) (text : Text) : Bool :=
  op.markup.isPrefixOf text &&
    ((dropEmptyBraces (text.drop op.markup.length)).dropWhile (· = ' ')).head? = some '-'

/-- How often the symbol of an operation stands in front of a minus sign. -/
def minusesAfter (op : BinaryOp) : Text → Nat
  | [] => 0
  | c :: rest => (if leadsToMinus op (c :: rest) then 1 else 0) + minusesAfter op rest

end Markup

namespace Expr

/-- Whether the leftmost leaf, down left operands that have no parentheses, is a negation or a
number below zero. -/
def opensWithMinus : Expr → Bool
  | number v => v.negative && !v.isZero
  | neg _ => true
  | binary op x _ => !op.wrapsLeft x && x.opensWithMinus
  | ident _ | call .. => false

/-- Whether the node is one of the operation whose right operand has no parentheses and opens with a
minus sign. -/
def exposesMinus (op : BinaryOp) : Expr → Bool
  | binary other _ y => other = op && !other.wrapsRight y && y.opensWithMinus
  | _ => false

end Expr

end MathMarkup
