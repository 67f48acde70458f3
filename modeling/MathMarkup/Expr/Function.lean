import MathMarkup.Number.Binary64
import MathMarkup.Text.Basic

/-!
# Elementary functions

The functions of one argument that an expression may call.
-/
namespace MathMarkup

inductive ElementaryFunction where
  | sqrt
  | sin
  | cos
  | tan
  | ln
  | log
  | exp
  deriving DecidableEq

namespace ElementaryFunction

def all : List ElementaryFunction := [sqrt, sin, cos, tan, ln, log, exp]

def name : ElementaryFunction → Text
  | sqrt => "sqrt".toList
  | sin => "sin".toList
  | cos => "cos".toList
  | tan => "tan".toList
  | ln => "ln".toList
  | log => "log".toList
  | exp => "exp".toList

def ofName? (name : Text) : Option ElementaryFunction := all.find? fun f => f.name = name

/-- `log` is the logarithm to base ten, `ln` the natural one. -/
def apply : ElementaryFunction → Binary64 → Binary64
  | sqrt => Binary64.lift Float.sqrt
  | sin => Binary64.lift Float.sin
  | cos => Binary64.lift Float.cos
  | tan => Binary64.lift Float.tan
  | ln => Binary64.lift Float.log
  | log => Binary64.lift Float.log10
  | exp => Binary64.lift Float.exp

@[simp]
theorem ofName?_name (f : ElementaryFunction) : ofName? f.name = some f := by
  cases f <;> decide

theorem name_of_ofName? {name : Text} {f : ElementaryFunction} (h : ofName? name = some f) :
    f.name = name := by
  simpa using List.find?_some h

end ElementaryFunction

end MathMarkup
