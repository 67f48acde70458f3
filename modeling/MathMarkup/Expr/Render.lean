import MathMarkup.Expr.Basic
import MathMarkup.Number.Shortest

/-!
# Rendering

The markup of an expression, with parentheses exactly where its shape needs them. The layout
decides about spaces only: in the compact one a control word is kept apart from a letter by `{}`.
-/
namespace MathMarkup

inductive Layout where
  | compact
  | pretty
  deriving DecidableEq

/-- Why a tree has no markup. -/
inductive RenderError where
  | noSides
  | notFinite (value : Binary64)
  | emptyIdentifier
  | unnamedCall
  | argumentCount (name : Text) (count : Nat)
  deriving DecidableEq

def RenderError.message : RenderError → String
  | noSides => "equation has no sides"
  | notFinite v => "cannot render non-finite number " ++ String.ofList v.toText
  | emptyIdentifier => "empty identifier"
  | unnamedCall => "function call without a name"
  | argumentCount name count =>
    "function '" ++ String.ofList name ++ "' expects exactly one argument, got " ++ toString count

/-- The text of a finite number; both zeros are written alike. -/
def Binary64.render (v : Binary64) : Except RenderError Text :=
  if !v.isFinite then .error (.notFinite v)
  else if v.isZero then .ok ['0']
  else .ok v.toText

/-- Puts parentheses around a text if asked to. -/
def parenthesizeIf (needed : Bool) (text : Text) : Text :=
  if needed then '(' :: text ++ [')'] else text

namespace BinaryOp

/-- Whether a left operand needs parentheses: it must bind at least as strongly. -/
def wrapsLeft (op : BinaryOp) (left : Expr) : Bool := left.precedence < op.precedence

/-- Whether a right operand needs parentheses. A negation and a number below zero always do, and so
does an operand of equal strength after an operation that associates to the left only. -/
def wrapsRight (op : BinaryOp) (right : Expr) : Bool :=
  right.precedence < op.precedence || (right.precedence = op.precedence && op.isLeftOnly) ||
    right.precedence = Expr.negationPrecedence

/-- What stands between the texts of the operands. A control word must not run into a letter. -/
def separator (op : BinaryOp) (layout : Layout) (right : Text) : Text :=
  match layout with
  | .pretty => ' ' :: op.markup ++ [' ']
  | .compact =>
    match op.markup, right with
    | '\\' :: _, c :: _ => if c.isAlpha then op.markup ++ "\x7b\x7d".toList else op.markup
    | _, _ => op.markup

def render (op : BinaryOp) (layout : Layout) (left right : Text) : Text :=
  left ++ op.separator layout right ++ right

end BinaryOp

namespace Expr

def render (layout : Layout) : Expr → Except RenderError Text
  | number v => v.render
  | ident name => if name = [] then .error .emptyIdentifier else .ok name
  | neg x =>
    match x.render layout with
    | .error e => .error e
    | .ok text => .ok ('-' :: parenthesizeIf (x.precedence ≤ negationPrecedence) text)
  | binary op x y =>
    match x.render layout with
    | .error e => .error e
    | .ok left =>
      match y.render layout with
      | .error e => .error e
      | .ok right =>
        .ok (op.render layout (parenthesizeIf (op.wrapsLeft x) left)
          (parenthesizeIf (op.wrapsRight y) right))
  | call name arguments =>
    if name = [] then .error .unnamedCall
    else
      match arguments with
      | [x] =>
        match x.render layout with
        | .error e => .error e
        | .ok text => .ok ('\\' :: name ++ '\x7b' :: text ++ ['\x7d'])
      | _ => .error (.argumentCount name arguments.length)

def renderAll (layout : Layout) : List Expr → Except RenderError (List Text)
  | [] => .ok []
  | x :: xs =>
    match x.render layout with
    | .error e => .error e
    | .ok text =>
      match renderAll layout xs with
      | .error e => .error e
      | .ok texts => .ok (text :: texts)

end Expr

namespace Equation

/-- What stands between two sides. -/
def separator : Layout → Text
  | .compact => "=".toList
  | .pretty => " = ".toList

def render (layout : Layout) (equation : Equation) : Except RenderError Text :=
  match equation.sides with
  | [] => .error .noSides
  | sides =>
    match Expr.renderAll layout sides with
    | .error e => .error e
    | .ok texts => .ok (Text.join (separator layout) texts)

end Equation

end MathMarkup
