import MathMarkup.Expr.Fold
import MathMarkup.Expr.Subtree

/-!
# Values of closed expressions

An expression without identifiers is computed from its leaves up, and from left to right, with the
operations of machine floats. Every result on the way has to be finite, and a negative zero counts
as zero.
-/
namespace MathMarkup.Expr

/-- The operation of machine floats that an operator stands for. -/
def floatOperation : BinaryOp → Float → Float → Float
  | .add, a, b => a + b
  | .sub, a, b => a - b
  | .mul, a, b => a * b
  | .div, a, b => a / b

/-- The functions of machine floats by their names: `ln` is the natural logarithm, `log` that to
base ten. -/
def floatFunctions : List (Text × (Float → Float)) :=
  [("sqrt".toList, Float.sqrt), ("sin".toList, Float.sin), ("cos".toList, Float.cos),
    ("tan".toList, Float.tan), ("ln".toList, Float.log), ("log".toList, Float.log10),
    ("exp".toList, Float.exp)]

/-- The number as a result of a computation, if it is finite: not all bits of its exponent are
set. Zero loses its sign. -/
def result (error : EvaluationError) (v : Binary64) : Except EvaluationError Binary64 :=
  if v.code = 0 then .ok { v with negative := false }
  else if v.code < 0x7FF0000000000000 then .ok v
  else .error error

/-- The result of an operation on two numbers. -/
def operate (op : BinaryOp) (a b : Binary64) : Except EvaluationError Binary64 :=
  if op = .div ∧ b.code = 0 then .error (.divisionByZero a b)
  else result (.notFinite (.operation op)) (.ofFloat (floatOperation op a.toFloat b.toFloat))

/-- The value of an expression; one with identifiers or unknown calls has none. A negation changes
the sign only. -/
def value? : Expr → Option (Except EvaluationError Binary64)
  | number v => some (result (.notFinite .literal) v)
  | ident _ => none
  | neg x =>
    x.value?.map fun r => r.bind fun a =>
      result (.notFinite .negation) { a with negative := !a.negative }
  | binary op x y =>
    match x.value?, y.value? with
    | some r, some s => some (r.bind fun a => s.bind fun b => operate op a b)
    | _, _ => none
  | call name [x] =>
    match floatFunctions.lookup name, x.value? with
    | some f, some r =>
      some (r.bind fun a => result (.noFiniteValue name a) (.ofFloat (f a.toFloat)))
    | _, _ => none
  | call _ _ => none

/-- The error of a computation that fails. -/
def failure? (x : Expr) : Option EvaluationError :=
  match x.value? with
  | some (.error e) => some e
  | _ => none

mutual

/-- Every largest subtree that has a value, replaced by it. -/
def valued (x : Expr) : Expr :=
  match x.value?, x with
  | some (.ok v), _ => number v
  | _, number v => number v
  | _, ident name => ident name
  | _, neg x => neg x.valued
  | _, binary op x y => binary op x.valued y.valued
  | _, call name arguments => call name (valuedAll arguments)

def valuedAll : List Expr → List Expr
  | [] => []
  | x :: xs => x.valued :: valuedAll xs

end

end MathMarkup.Expr
