import MathMarkup.Expr.Basic

/-!
# Regrouping

The steps that lead from an expression to the one that its text reads as. Text has no numbers
below zero, and an operand that follows a sum or product without parentheses joins it.
-/
namespace MathMarkup.Expr

/-- One step, at any depth. -/
inductive Regroups : Expr → Expr → Prop
  | sign {v : Binary64} : v.negative = true → v.isZero = false →
      Regroups (number v) (neg (number v.neg))
  | zero {v : Binary64} : v.negative = true → v.isZero = true → Regroups (number v) (number .zero)
  | shift {outer inner : BinaryOp} {x y z : Expr} : outer.isLeftOnly = false →
      inner.precedence = outer.precedence →
      Regroups (binary outer x (binary inner y z)) (binary inner (binary outer x y) z)
  | neg {x y : Expr} : Regroups x y → Regroups (neg x) (neg y)
  | left {op : BinaryOp} {x y z : Expr} : Regroups x y → Regroups (binary op x z) (binary op y z)
  | right {op : BinaryOp} {x y z : Expr} : Regroups y z → Regroups (binary op x y) (binary op x z)
  | argument {name : Text} {before after : List Expr} {x y : Expr} : Regroups x y →
      Regroups (call name (before ++ x :: after)) (call name (before ++ y :: after))

/-- The number without a sign of its own. -/
def unsigned (v : Binary64) : Expr :=
  if v.isZero then number .zero else if v.negative then neg (number v.neg) else number v

/-- Joins a regrouped operand to what stands on its left: the operand of its leftmost operation of
equal strength is joined first. -/
def joinRight (op : BinaryOp) (x : Expr) : Expr → Expr
  | binary inner y z =>
    if op.isLeftOnly = false ∧ inner.precedence = op.precedence then
      binary inner (joinRight op x y) z
    else binary op x (binary inner y z)
  | y => binary op x y

mutual

/-- The expression at the end of all steps. -/
def regrouped : Expr → Expr
  | number v => unsigned v
  | ident name => ident name
  | neg x => neg x.regrouped
  | binary op x y => joinRight op x.regrouped y.regrouped
  | call name arguments => call name (regroupedAll arguments)

def regroupedAll : List Expr → List Expr
  | [] => []
  | x :: xs => x.regrouped :: regroupedAll xs

end

end MathMarkup.Expr
