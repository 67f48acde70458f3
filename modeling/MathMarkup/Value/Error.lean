import MathMarkup.Expr.Fold
import MathMarkup.Expr.ParseError
import MathMarkup.Expr.Render

/-!
# Conversion errors

Why a value has no markup. Each error keeps the cause that the stage which found it reports.
-/
namespace MathMarkup

inductive ContainerKind where
  | vector
  | matrix
  deriving DecidableEq

namespace ContainerKind

def name : ContainerKind → String
  | vector => "vector"
  | matrix => "matrix"

/-- The environment that a container is written in. -/
def environment : ContainerKind → Text
  | vector => "pmatrix".toList
  | matrix => "bmatrix".toList

end ContainerKind

/-- Why a value has no markup. -/
inductive ConversionError where
  | parse (error : ParseError)
  | render (error : RenderError)
  | evaluation (error : EvaluationError)
  | emptyContainer (kind : ContainerKind)
  deriving DecidableEq

def ConversionError.message : ConversionError → String
  | parse e => e.message
  | render e => "Render error: " ++ e.message
  | evaluation e => "Evaluation error: " ++ e.message
  | emptyContainer kind => "Empty container: cannot render an empty " ++ kind.name

end MathMarkup
