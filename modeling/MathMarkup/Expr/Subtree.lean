import MathMarkup.Expr.Function
import MathMarkup.Expr.Scan

/-!
# Subtrees

The subtrees of an expression in reading order. What is asked of an expression at every depth is a
property of single nodes here, asked of all subtrees.
-/
namespace MathMarkup

namespace Expr

mutual

/-- All subtrees from left to right, each before those inside it. -/
def subtrees : Expr → List Expr
  | number v => [number v]
  | ident name => [ident name]
  | neg x => neg x :: x.subtrees
  | binary op x y => binary op x y :: (x.subtrees ++ y.subtrees)
  | call name arguments => call name arguments :: subtreesAll arguments

def subtreesAll : List Expr → List Expr
  | [] => []
  | x :: xs => x.subtrees ++ subtreesAll xs

end

mutual

/-- All subtrees from left to right, each after those inside it. -/
def postorder : Expr → List Expr
  | number v => [number v]
  | ident name => [ident name]
  | neg x => x.postorder ++ [neg x]
  | binary op x y => x.postorder ++ y.postorder ++ [binary op x y]
  | call name arguments => postorderAll arguments ++ [call name arguments]

def postorderAll : List Expr → List Expr
  | [] => []
  | x :: xs => x.postorder ++ postorderAll xs

end

def isIdent : Expr → Bool
  | ident _ => true
  | _ => false

/-- Whether no identifier stands in an expression. -/
def isClosed (x : Expr) : Bool := x.subtrees.all fun y => !y.isIdent

/-- Whether the node itself is a call of a known function with one argument, or no call. -/
def hasKnownCall : Expr → Bool
  | call name arguments => (ElementaryFunction.ofName? name).isSome && arguments.length = 1
  | _ => true

/-- Whether the node itself is an identifier in its proper form, or none. -/
def hasProperName : Expr → Bool
  | ident name => isName name
  | _ => true

/-- Whether the node itself is a finite number, or none. -/
def hasFiniteValue : Expr → Bool
  | number v => v.isFinite
  | _ => true

/-- Whether all calls are of known functions with one argument. -/
def callsKnown (x : Expr) : Bool := x.subtrees.all hasKnownCall

/-- Whether all identifiers are proper ones. -/
def namesProper (x : Expr) : Bool := x.subtrees.all hasProperName

/-- Whether all numbers are finite. -/
def numbersFinite (x : Expr) : Bool := x.subtrees.all hasFiniteValue

/-- Whether an expression has the form of one that was read and folded. -/
def isWellFormed (x : Expr) : Bool := x.callsKnown && x.namesProper && x.numbersFinite

theorem mem_subtreesAll {x : Expr} {xs : List Expr} :
    x ∈ subtreesAll xs ↔ ∃ y ∈ xs, x ∈ y.subtrees := by
  induction xs with
  | nil => simp [subtreesAll]
  | cons y ys ih => simp [subtreesAll, ih]

theorem mem_postorderAll {x : Expr} {xs : List Expr} :
    x ∈ postorderAll xs ↔ ∃ y ∈ xs, x ∈ y.postorder := by
  induction xs with
  | nil => simp [postorderAll]
  | cons y ys ih => simp [postorderAll, ih]

/-- The two orders list the same subtrees. -/
theorem mem_postorder {x y : Expr} : x ∈ y.postorder ↔ x ∈ y.subtrees := by
  induction y with
  | number v => simp [postorder, subtrees]
  | ident name => simp [postorder, subtrees]
  | neg z ih => simp [postorder, subtrees, ih, or_comm]
  | binary op a b iha ihb =>
    simp only [postorder, subtrees, List.mem_append, List.mem_cons, List.not_mem_nil, or_false, iha,
      ihb]
    exact or_comm
  | call name arguments ih =>
    simp only [postorder, subtrees, List.mem_append, List.mem_cons, List.not_mem_nil, or_false,
      mem_postorderAll, mem_subtreesAll]
    constructor
    · rintro (⟨z, hz, hx⟩ | rfl)
      · exact Or.inr ⟨z, hz, (ih z hz).1 hx⟩
      · exact Or.inl rfl
    · rintro (rfl | ⟨z, hz, hx⟩)
      · exact Or.inr rfl
      · exact Or.inl ⟨z, hz, (ih z hz).2 hx⟩

end Expr

end MathMarkup
