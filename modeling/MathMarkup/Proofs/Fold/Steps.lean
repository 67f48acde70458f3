import Mathlib
import MathMarkup.Expr.Fold

/-!
# The steps of folding

What a fold that succeeds has done at each node: it folded the parts, and then either put a finite
number in the place of the node or kept the node around its folded parts.
-/
namespace MathMarkup.Expr

/-- A number that folding has put somewhere: it is finite, and not negative zero. -/
inductive IsLiteral : Expr → Prop
  | intro {v : Binary64} : v.isFinite = true → IsLiteral (number (normalized v))

theorem isFinite_normalized {v : Binary64} (h : v.isFinite = true) :
    (normalized v).isFinite = true := by
  unfold normalized
  split
  · rfl
  · exact h

theorem normalized_normalized (v : Binary64) : normalized (normalized v) = normalized v := by
  unfold normalized
  by_cases hz : v.isZero = true
  · rw [if_pos hz]
    rfl
  · rw [if_neg hz, if_neg hz]

theorem isLiteral_of_literal {source : EvaluationError.Source} {v : Binary64} {x : Expr}
    (h : literal source v = .ok x) : IsLiteral x := by
  unfold literal at h
  split at h
  · next hv =>
    cases h
    exact .intro hv
  · cases h

theorem IsLiteral.fold {x : Expr} (h : IsLiteral x) : x.fold = .ok x := by
  obtain ⟨hv⟩ := h
  rw [Expr.fold, literal, if_pos (isFinite_normalized hv), normalized_normalized]

/-! ## Single nodes -/

theorem foldNeg_ok {x y : Expr} (h : foldNeg x = .ok y) : IsLiteral y ∨ y = neg x := by
  unfold foldNeg at h
  split at h
  · exact Or.inl (isLiteral_of_literal h)
  · cases h
    exact Or.inr rfl

theorem foldBinary_ok {op : BinaryOp} {x y z : Expr} (h : foldBinary op x y = .ok z) :
    IsLiteral z ∨ z = binary op x y := by
  unfold foldBinary at h
  split at h
  · split at h
    · cases h
    · exact Or.inl (isLiteral_of_literal h)
  · cases h
    exact Or.inr rfl

theorem foldCall_ok {name : Text} {arguments : List Expr} {y : Expr}
    (h : foldCall name arguments = .ok y) : IsLiteral y ∨ y = call name arguments := by
  unfold foldCall at h
  split at h
  · dsimp only at h
    split at h
    · next hv =>
      cases h
      exact Or.inl (.intro hv)
    · cases h
  · cases h
    exact Or.inr rfl

/-! ## Whole expressions -/

theorem fold_neg_of_ok {x x' : Expr} (h : x.fold = .ok x') : (neg x).fold = foldNeg x' := by
  rw [fold, h]

theorem fold_binary_of_ok {op : BinaryOp} {x y x' y' : Expr} (hx : x.fold = .ok x')
    (hy : y.fold = .ok y') : (binary op x y).fold = foldBinary op x' y' := by
  simp only [fold, hx, hy]

theorem fold_call_of_ok {name : Text} {xs ys : List Expr} (h : foldAll xs = .ok ys) :
    (call name xs).fold = foldCall name ys := by
  rw [fold, h]

theorem fold_neg_ok {x y : Expr} (h : (neg x).fold = .ok y) :
    ∃ x', x.fold = .ok x' ∧ foldNeg x' = .ok y := by
  rw [fold] at h
  split at h
  · cases h
  · next x' hx => exact ⟨x', hx, h⟩

theorem fold_binary_ok {op : BinaryOp} {x y z : Expr} (h : (binary op x y).fold = .ok z) :
    ∃ x' y', x.fold = .ok x' ∧ y.fold = .ok y' ∧ foldBinary op x' y' = .ok z := by
  rw [fold] at h
  split at h
  · cases h
  · next x' hx =>
    split at h
    · cases h
    · next y' hy => exact ⟨x', y', hx, hy, h⟩

theorem fold_call_ok {name : Text} {arguments : List Expr} {y : Expr}
    (h : (call name arguments).fold = .ok y) :
    ∃ xs, foldAll arguments = .ok xs ∧ foldCall name xs = .ok y := by
  rw [fold] at h
  split at h
  · cases h
  · next xs hs => exact ⟨xs, hs, h⟩

theorem foldAll_cons_ok {x : Expr} {xs ys : List Expr} (h : foldAll (x :: xs) = .ok ys) :
    ∃ y zs, x.fold = .ok y ∧ foldAll xs = .ok zs ∧ ys = y :: zs := by
  rw [foldAll] at h
  split at h
  · cases h
  · next y hy =>
    split at h
    · cases h
    · next zs hz =>
      cases h
      exact ⟨y, zs, hy, hz, rfl⟩

theorem exists_of_mem_foldAll {xs ys : List Expr} (h : foldAll xs = .ok ys) :
    ∀ y ∈ ys, ∃ x ∈ xs, x.fold = .ok y := by
  induction xs generalizing ys with
  | nil =>
    cases h
    simp
  | cons x xs ih =>
    obtain ⟨z, zs, hz, hzs, rfl⟩ := foldAll_cons_ok h
    intro y hy
    rcases List.mem_cons.1 hy with rfl | hy
    · exact ⟨x, List.mem_cons_self, hz⟩
    · obtain ⟨x', hx', hy⟩ := ih hzs y hy
      exact ⟨x', List.mem_cons_of_mem x hx', hy⟩

/-- Every number at the root of a folded expression is one that folding has put there. -/
theorem isLiteral_of_fold_eq_number {x : Expr} {v : Binary64} (h : x.fold = .ok (number v)) :
    IsLiteral (number v) := by
  cases x with
  | number w => exact isLiteral_of_literal h
  | ident name => cases h
  | neg x =>
    obtain ⟨x', -, h⟩ := fold_neg_ok h
    exact (foldNeg_ok h).resolve_right (by simp)
  | binary op x y =>
    obtain ⟨x', y', -, -, h⟩ := fold_binary_ok h
    exact (foldBinary_ok h).resolve_right (by simp)
  | call name arguments =>
    obtain ⟨xs, -, h⟩ := fold_call_ok h
    exact (foldCall_ok h).resolve_right (by simp)

end MathMarkup.Expr
