import Mathlib
import MathMarkup.Expr.Regroup

/-!
# Joining operands

An operand joined to what stands on its left goes down to its leftmost operation of equal strength.
Joining is associative, and never changes how strongly an expression holds together.
-/
namespace MathMarkup.Expr

/-- The operation takes an operation on its right into a chain. -/
def Chains (op inner : BinaryOp) : Prop :=
  op.isLeftOnly = false ∧ inner.precedence = op.precedence

/-- The operand has no operation on its left side that could be taken into a chain. -/
def EndsChain (op : BinaryOp) (y : Expr) : Prop :=
  ∀ inner a b, y = binary inner a b → ¬ Chains op inner

/-- Down the left side of an operand, as far as its operations are taken into a chain. -/
@[elab_as_elim]
theorem chain_induct {op : BinaryOp} {motive : Expr → Prop}
    (ends : ∀ y, EndsChain op y → motive y)
    (chains : ∀ inner a b, Chains op inner → motive a → motive (binary inner a b)) (y : Expr) :
    motive y := by
  induction y with
  | binary inner a b iha _ =>
    by_cases h : Chains op inner
    · exact chains inner a b h iha
    · refine ends _ ?_
      rintro inner' a' b' heq
      cases heq
      exact h
  | _ => exact ends _ (by simp [EndsChain])

theorem joinRight_of_chains {op inner : BinaryOp} (h : Chains op inner) (x y z : Expr) :
    joinRight op x (binary inner y z) = binary inner (joinRight op x y) z := by
  rw [joinRight]
  exact if_pos h

theorem joinRight_of_endsChain {op : BinaryOp} {y : Expr} (x : Expr) (h : EndsChain op y) :
    joinRight op x y = binary op x y := by
  cases y with
  | binary inner a b =>
    rw [joinRight]
    exact if_neg (h inner a b rfl)
  | _ => rfl

theorem joinRight_of_precedence {op : BinaryOp} {y : Expr} (x : Expr)
    (h : y.precedence ≠ op.precedence) : joinRight op x y = binary op x y := by
  refine joinRight_of_endsChain x ?_
  rintro inner a b rfl ⟨-, hinner⟩
  exact h hinner

theorem joinRight_of_isLeftOnly {op : BinaryOp} (x y : Expr) (h : op.isLeftOnly = true) :
    joinRight op x y = binary op x y := by
  refine joinRight_of_endsChain x ?_
  rintro inner a b - ⟨hop, -⟩
  rw [h] at hop
  cases hop

/-- It does not matter which of two joins is made first. -/
theorem joinRight_assoc {op inner : BinaryOp} (h : Chains op inner) (x y z : Expr) :
    joinRight op x (joinRight inner y z) = joinRight inner (joinRight op x y) z := by
  induction z using chain_induct with
  | ends z hz =>
    rw [joinRight_of_endsChain y hz, joinRight_of_chains h, joinRight_of_endsChain _ hz]
  | chains k a b hk iha =>
    have hop : Chains op k := ⟨h.1, hk.2.trans h.2⟩
    rw [joinRight_of_chains hk, joinRight_of_chains hop, iha, joinRight_of_chains hk]

@[simp]
theorem precedence_joinRight (op : BinaryOp) (x y : Expr) :
    (joinRight op x y).precedence = op.precedence := by
  induction y using chain_induct with
  | ends y hy =>
    rw [joinRight_of_endsChain x hy]
    rfl
  | chains inner a b hinner _ =>
    rw [joinRight_of_chains hinner]
    exact hinner.2

theorem precedence_unsigned (v : Binary64) :
    (unsigned v).precedence = (number v).precedence := by
  cases hzero : v.isZero with
  | true => simp [unsigned, precedence, hzero, Binary64.zero]
  | false => cases hsign : v.negative <;> simp [unsigned, precedence, hzero, hsign]

/-- Steps never make parentheses necessary that were not, nor the other way round. -/
@[simp]
theorem precedence_regrouped (x : Expr) : x.regrouped.precedence = x.precedence := by
  cases x with
  | number v => exact precedence_unsigned v
  | binary op x y => exact precedence_joinRight op _ _
  | _ => rfl

end MathMarkup.Expr
