import MathMarkup.Number.Binary64
import MathMarkup.Text.Basic

/-!
# Expressions

Trees of numbers, identifiers, the four operations, negations and function calls, with the binding
strength that decides where their text needs parentheses.
-/
namespace MathMarkup

inductive BinaryOp where
  | add
  | sub
  | mul
  | div
  deriving DecidableEq

namespace BinaryOp

/-- The character that stands for the operation in an expression. -/
def symbol : BinaryOp → Char
  | add => '+'
  | sub => '-'
  | mul => '*'
  | div => '/'

/-- The markup that stands for the operation. -/
def markup : BinaryOp → Text
  | add => "+".toList
  | sub => "-".toList
  | mul => "\\cdot".toList
  | div => "/".toList

/-- Additive operations bind with strength 1, multiplicative ones with strength 2. -/
def precedence : BinaryOp → Nat
  | add | sub => 1
  | mul | div => 2

/-- Whether `a ∘ (b ∘ c)` differs from `(a ∘ b) ∘ c`. -/
def isLeftOnly : BinaryOp → Bool
  | sub | div => true
  | add | mul => false

def apply : BinaryOp → Binary64 → Binary64 → Binary64
  | add => Binary64.add
  | sub => Binary64.sub
  | mul => Binary64.mul
  | div => Binary64.div

end BinaryOp

/-- A call keeps whatever argument list it was given; reading an expression gives calls of one
argument only. -/
inductive Expr where
  | number (value : Binary64)
  | ident (name : Text)
  | neg (operand : Expr)
  | binary (op : BinaryOp) (left right : Expr)
  | call (name : Text) (arguments : List Expr)

namespace Expr

/-! ## Induction and equality -/

/-- A property of all expressions, if it passes from the parts of each to the whole. -/
@[elab_as_elim, induction_eliminator]
theorem induct {motive : Expr → Prop} (number : ∀ value, motive (number value))
    (ident : ∀ name, motive (ident name)) (neg : ∀ operand, motive operand → motive (neg operand))
    (binary : ∀ op left right, motive left → motive right → motive (binary op left right))
    (call : ∀ name arguments, (∀ x ∈ arguments, motive x) → motive (call name arguments)) :
    ∀ x, motive x
  | .number v => number v
  | .ident name => ident name
  | .neg x => neg x (induct number ident neg binary call x)
  | .binary op x y =>
    binary op x y (induct number ident neg binary call x) (induct number ident neg binary call y)
  | .call name arguments =>
    call name arguments fun x _ => induct number ident neg binary call x

mutual

def decEq (x y : Expr) : Decidable (x = y) :=
  match x, y with
  | number a, number b => decidable_of_iff (a = b) (by simp)
  | ident a, ident b => decidable_of_iff (a = b) (by simp)
  | neg a, neg b =>
    match a.decEq b with
    | isTrue h => isTrue (by rw [h])
    | isFalse h => isFalse (by simpa using h)
  | binary o a b, binary p c d =>
    match a.decEq c, b.decEq d with
    | isTrue h, isTrue k => decidable_of_iff (o = p) (by simp [h, k])
    | isFalse h, _ => isFalse (by simp [h])
    | _, isFalse h => isFalse (by simp [h])
  | call f as, call g bs =>
    match decEqAll as bs with
    | isTrue h => decidable_of_iff (f = g) (by simp [h])
    | isFalse h => isFalse (by simp [h])
  | number _, ident _ | number _, neg _ | number _, binary .. | number _, call .. => isFalse nofun
  | ident _, number _ | ident _, neg _ | ident _, binary .. | ident _, call .. => isFalse nofun
  | neg _, number _ | neg _, ident _ | neg _, binary .. | neg _, call .. => isFalse nofun
  | binary .., number _ | binary .., ident _ | binary .., neg _ | binary .., call .. =>
    isFalse nofun
  | call .., number _ | call .., ident _ | call .., neg _ | call .., binary .. => isFalse nofun

def decEqAll (xs ys : List Expr) : Decidable (xs = ys) :=
  match xs, ys with
  | [], [] => isTrue rfl
  | x :: xs, y :: ys =>
    match x.decEq y, decEqAll xs ys with
    | isTrue h, isTrue k => isTrue (by rw [h, k])
    | isFalse h, _ => isFalse (by simp [h])
    | _, isFalse h => isFalse (by simp [h])
  | [], _ :: _ => isFalse nofun
  | _ :: _, [] => isFalse nofun

end

instance : DecidableEq Expr := decEq

/-! ## Precedence -/

/-- The strength of a negation, and of a number written with a minus sign. -/
def negationPrecedence : Nat := 3

/-- The strength of what never needs parentheses. -/
def atomPrecedence : Nat := 4

/-- How strongly the text of an expression holds together. -/
def precedence : Expr → Nat
  | number v => if v.negative && !v.isZero then negationPrecedence else atomPrecedence
  | ident _ => atomPrecedence
  | neg _ => negationPrecedence
  | binary op _ _ => op.precedence
  | call _ _ => atomPrecedence

end Expr

/-- Expressions joined by equality signs; a single side is a plain expression. -/
structure Equation where
  sides : List Expr
  deriving DecidableEq

namespace Equation

def isChain (equation : Equation) : Bool := 1 < equation.sides.length

end Equation

end MathMarkup
