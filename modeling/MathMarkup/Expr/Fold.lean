import MathMarkup.Expr.Basic
import MathMarkup.Expr.Function
import MathMarkup.Number.Shortest

/-!
# Folding

Subtrees without identifiers are replaced by their values; all else keeps its shape. A value that
is not finite is an error, and a negative zero becomes zero.
-/
namespace MathMarkup

/-- What a number that is not finite came from. -/
inductive EvaluationError.Source where
  | literal
  | negation
  | operation (op : BinaryOp)
  deriving DecidableEq

/-- Why arithmetic on numbers has no result. -/
inductive EvaluationError where
  | notFinite (source : EvaluationError.Source)
  | divisionByZero (dividend divisor : Binary64)
  | noFiniteValue (function : Text) (argument : Binary64)
  | element (value : Binary64)
  deriving DecidableEq

namespace EvaluationError

def Source.message : Source → String
  | literal => "number literal"
  | negation => "negation"
  | operation op => String.ofList op.markup

def message : EvaluationError → String
  | notFinite source => source.message ++ " does not produce a finite value"
  | divisionByZero a b =>
    "division by zero in " ++ String.ofList a.toText ++ "/" ++ String.ofList b.toText
  | noFiniteValue function x =>
    String.ofList function ++ "(" ++ String.ofList x.toText ++ ") has no finite value"
  | element v => "container element " ++ String.ofList v.toText ++ " is not finite"

end EvaluationError

namespace Expr

/-- A finite number without negative zero. -/
def normalized (v : Binary64) : Binary64 := if v.isZero then .zero else v

/-- The number as an expression, if it is finite. -/
def literal (source : EvaluationError.Source) (v : Binary64) : Except EvaluationError Expr :=
  if v.isFinite then .ok (number (normalized v)) else .error (.notFinite source)

/-- The negation of a folded expression. -/
def foldNeg : Expr → Except EvaluationError Expr
  | number v => literal .negation v.neg
  | x => .ok (neg x)

/-- The operation on two folded expressions. -/
def foldBinary (op : BinaryOp) : Expr → Expr → Except EvaluationError Expr
  | number a, number b =>
    if op = .div ∧ b.isZero then .error (.divisionByZero a b)
    else literal (.operation op) (op.apply a b)
  | x, y => .ok (binary op x y)

/-- The call with folded arguments; only a known function of one number has a value. -/
def foldCall (name : Text) (arguments : List Expr) : Except EvaluationError Expr :=
  match ElementaryFunction.ofName? name, arguments with
  | some f, [number x] =>
    let v := f.apply x
    if v.isFinite then .ok (number (normalized v)) else .error (.noFiniteValue name x)
  | _, _ => .ok (call name arguments)

mutual

/-- Replaces the subtrees without identifiers by their values, in order from left to right. -/
def fold : Expr → Except EvaluationError Expr
  | number v => literal .literal v
  | ident name => .ok (ident name)
  | neg x =>
    match x.fold with
    | .error e => .error e
    | .ok x => foldNeg x
  | binary op x y =>
    match x.fold with
    | .error e => .error e
    | .ok x =>
      match y.fold with
      | .error e => .error e
      | .ok y => foldBinary op x y
  | call name arguments =>
    match foldAll arguments with
    | .error e => .error e
    | .ok arguments => foldCall name arguments

def foldAll : List Expr → Except EvaluationError (List Expr)
  | [] => .ok []
  | x :: xs =>
    match x.fold with
    | .error e => .error e
    | .ok x =>
      match foldAll xs with
      | .error e => .error e
      | .ok xs => .ok (x :: xs)

end

end Expr

/-- Folds every side on its own. -/
def Equation.fold (equation : Equation) : Except EvaluationError Equation :=
  match Expr.foldAll equation.sides with
  | .error e => .error e
  | .ok sides => .ok ⟨sides⟩

end MathMarkup
