import MathMarkup.Expr.Parse
import MathMarkup.Value.Container

/-!
# Values

What can be written as markup: the text of an expression or of a chain of expressions, a vector or
a matrix. Texts are parsed and folded first.
-/
namespace MathMarkup

inductive Value where
  | scalar (text : Text)
  | vector (values : List Binary64)
  | matrix (rows : List (List Binary64))
  deriving DecidableEq

/-- Parses, folds and renders the text of an equation. -/
def renderText (layout : Layout) (text : Text) : Except ConversionError Text :=
  match Equation.parse text with
  | .error e => .error (.parse e)
  | .ok equation =>
    match equation.fold with
    | .error e => .error (.evaluation e)
    | .ok folded =>
      match folded.render layout with
      | .error e => .error (.render e)
      | .ok markup => .ok markup

def Value.render (layout : Layout) : Value → Except ConversionError Text
  | scalar text => renderText layout text
  | vector values => renderVector layout values
  | matrix rows => renderMatrix layout rows

end MathMarkup
