import MathMarkup.Expr.Render
import MathMarkup.Expr.Subtree

/-!
# Defects

What makes a tree one that has no markup, node by node. Trees that were read and folded have none of
these defects; others may have any number of them, at any depth.
-/
namespace MathMarkup.Expr

/-- Whether the node itself, whatever its operands are, is one that has no markup. -/
def isMalformed : Expr → Bool
  | number v => !v.isFinite
  | ident name => name = []
  | call name arguments => name = [] || arguments.length ≠ 1
  | neg _ | binary .. => false

/-- What is reported about a node. A call is asked for its name before its arguments are counted. -/
inductive Defect : Expr → RenderError → Prop
  | notFinite {v : Binary64} : v.isFinite = false → Defect (number v) (.notFinite v)
  | emptyIdentifier : Defect (ident []) .emptyIdentifier
  | unnamedCall {arguments : List Expr} : Defect (call [] arguments) .unnamedCall
  | argumentCount {name : Text} {arguments : List Expr} : name ≠ [] → arguments.length ≠ 1 →
      Defect (call name arguments) (.argumentCount name arguments.length)

/-- The error is about the first malformed node of a list. -/
def FirstDefect (nodes : List Expr) (e : RenderError) : Prop :=
  ∃ before x after, nodes = before ++ x :: after ∧ (∀ y ∈ before, y.isMalformed = false) ∧
    Defect x e

end MathMarkup.Expr
