import MathMarkup.Expr.Basic

/-!
# Substitution

Expressions in the place of identifiers.
-/
namespace MathMarkup.Expr

mutual

/-- Puts an expression in the place of every identifier; the names of calls stay. -/
def substitute (s : Text → Expr) : Expr → Expr
  | number v => number v
  | ident name => s name
  | neg x => neg (x.substitute s)
  | binary op x y => binary op (x.substitute s) (y.substitute s)
  | call name arguments => call name (substituteAll s arguments)

def substituteAll (s : Text → Expr) : List Expr → List Expr
  | [] => []
  | x :: xs => x.substitute s :: substituteAll s xs

end

theorem substituteAll_eq_map (s : Text → Expr) (xs : List Expr) :
    substituteAll s xs = xs.map (substitute s) := by
  induction xs with
  | nil => rfl
  | cons x xs ih => rw [substituteAll, ih]; rfl

/-- Identifiers in their own place change nothing. -/
@[simp]
theorem substitute_ident (x : Expr) : x.substitute ident = x := by
  induction x with
  | number v => rfl
  | ident name => rfl
  | neg x ih => rw [substitute, ih]
  | binary op x y ihx ihy => rw [substitute, ihx, ihy]
  | call name arguments ih =>
    rw [substitute, substituteAll_eq_map, List.map_congr_left ih, List.map_id']

end MathMarkup.Expr
