import Mathlib
import MathMarkup.Expr.Grammar
import MathMarkup.Proofs.Regroup.Join
import MathMarkup.Proofs.Render.Tokens

/-!
# The grammar derives the tokens of an expression

Parentheses stand where the grammar needs them: the tokens that an expression is written with are
derived as the regrouped expression. Behind a sum or product that takes its right operand into a
chain, the operand's tokens are derived as part of that chain.
-/
namespace MathMarkup

namespace Grammar

/-- Derivations whose operations all bind at least with the given strength. -/
def Derives (strength : Nat) : List Token → Expr → Prop :=
  if strength ≤ 1 then IsSum else if strength = 2 then IsProduct else IsFactor

variable {ts us : List Token} {x y : Expr}

theorem derives_of_isFactor (strength : Nat) (h : IsFactor ts x) : Derives strength ts x := by
  unfold Derives
  split
  · exact .product (.factor h)
  · split
    · exact .factor h
    · exact h

theorem Derives.weaken {m n : Nat} (h : Derives n ts x) (hle : m ≤ n) : Derives m ts x := by
  unfold Derives at h ⊢
  split at h
  · rwa [if_pos (by omega)]
  · split at h
    · split
      · exact .product h
      · rwa [if_pos (by omega)]
    · exact derives_of_isFactor m h

theorem Derives.isSum {n : Nat} (h : Derives n ts x) : IsSum ts x := h.weaken (Nat.zero_le n)

theorem Derives.step {op : BinaryOp} (hx : Derives op.precedence ts x)
    (hy : Derives (op.precedence + 1) us y) :
    Derives op.precedence (ts ++ .operator op :: us) (.binary op x y) := by
  cases op with
  | add => exact IsSum.step hx rfl hy
  | sub => exact IsSum.step hx rfl hy
  | mul => exact IsProduct.step hx rfl hy
  | div => exact IsProduct.step hx rfl hy

theorem Derives.wrapIf {m n : Nat} {needed : Bool} (h : Derives n ts x)
    (hneeded : needed = false → m ≤ n) : Derives m (wrapIf needed ts) x := by
  cases needed with
  | true => exact derives_of_isFactor m (.group h.isSum)
  | false => exact h.weaken (hneeded rfl)

end Grammar

namespace Expr

open Grammar

/-- The tokens of an expression are derived as its regrouped form, by themselves and as the last
operand of a chain. -/
structure IsDerived (y : Expr) : Prop where
  derives : Derives y.precedence y.tokens y.regrouped
  joins : ∀ (op : BinaryOp) (ts : List Token) (x : Expr), op.isLeftOnly = false →
    op.precedence ≤ y.precedence → Derives op.precedence ts x →
    Derives op.precedence (ts ++ .operator op :: y.tokens) (joinRight op x y.regrouped)

variable {op : BinaryOp} {ts : List Token} {x y : Expr}

theorem precedence_lt_negation (op : BinaryOp) : op.precedence < negationPrecedence := by
  cases op <;> decide

theorem derives_of_lt {us : List Token} {n : Nat} (hx : Derives op.precedence ts x)
    (hy : Derives n us y) (hlt : op.precedence < n) (hprecedence : y.precedence ≠ op.precedence) :
    Derives op.precedence (ts ++ .operator op :: us) (joinRight op x y) := by
  rw [joinRight_of_precedence x hprecedence]
  exact hx.step (hy.weaken hlt)

/-- An expression without operations outside of parentheses joins no chain. -/
theorem isDerived_of_strong (hstrong : negationPrecedence ≤ y.precedence)
    (h : Derives y.precedence y.tokens y.regrouped) : y.IsDerived where
  derives := h
  joins op ts x _ _ hx := by
    have hlt := precedence_lt_negation op
    refine derives_of_lt hx h (by omega) ?_
    rw [precedence_regrouped]
    omega

theorem IsDerived.leftOperand (hx : x.IsDerived) :
    Derives op.precedence (wrapIf (op.wrapsLeft x) x.tokens) x.regrouped := by
  refine hx.derives.wrapIf fun hneeded => ?_
  simpa [BinaryOp.wrapsLeft] using hneeded

/-- The right operand of an operation, which may go on with a chain. -/
theorem IsDerived.rightOperand (hy : y.IsDerived) (hx : Derives op.precedence ts x) :
    Derives op.precedence (ts ++ .operator op :: wrapIf (op.wrapsRight y) y.tokens)
      (joinRight op x y.regrouped) := by
  have hnegation := precedence_lt_negation op
  have hregrouped := precedence_regrouped y
  cases hwraps : op.wrapsRight y with
  | true =>
    -- a factor, which joins nothing: its strength differs, or the operation takes none
    have hfactor : Derives (op.precedence + 1) (wrapIf true y.tokens) y.regrouped :=
      hy.derives.wrapIf nofun
    have hjoin : joinRight op x y.regrouped = binary op x y.regrouped := by
      cases hop : op.isLeftOnly with
      | true => exact joinRight_of_isLeftOnly x _ hop
      | false =>
        simp only [BinaryOp.wrapsRight, hop, Bool.and_false, Bool.or_false, Bool.or_eq_true,
          decide_eq_true_eq] at hwraps
        exact joinRight_of_precedence x (by omega)
    rw [hjoin]
    exact hx.step hfactor
  | false =>
    simp only [BinaryOp.wrapsRight, Bool.or_eq_false_iff, decide_eq_false_iff_not] at hwraps
    obtain ⟨⟨hlow, hequal⟩, -⟩ := hwraps
    by_cases hsame : y.precedence = op.precedence
    · have hop : op.isLeftOnly = false := by simpa [hsame] using hequal
      exact hy.joins op ts x hop (by omega) hx
    · exact derives_of_lt hx hy.derives (by omega) (by omega)

/-- The first operand of an operation that is taken into a chain. -/
theorem IsDerived.innerOperand {inner : BinaryOp} (hchains : Chains op inner) (hy : y.IsDerived)
    (hx : Derives op.precedence ts x) :
    Derives op.precedence (ts ++ .operator op :: wrapIf (inner.wrapsLeft y) y.tokens)
      (joinRight op x y.regrouped) := by
  have hinner := hchains.2
  have hregrouped := precedence_regrouped y
  cases hwraps : inner.wrapsLeft y with
  | true =>
    simp only [BinaryOp.wrapsLeft, decide_eq_true_eq] at hwraps
    have hfactor : Derives (op.precedence + 1) (wrapIf true y.tokens) y.regrouped :=
      hy.derives.wrapIf nofun
    exact derives_of_lt hx hfactor (Nat.lt_succ_self _) (by omega)
  | false =>
    simp only [BinaryOp.wrapsLeft, decide_eq_false_iff_not] at hwraps
    exact hy.joins op ts x hchains.1 (by omega) hx

theorem isDerived_binary {a b : Expr} (ha : a.IsDerived) (hb : b.IsDerived) :
    (binary op a b).IsDerived where
  derives := hb.rightOperand ha.leftOperand
  joins outer ts x houter hle hx := by
    have hchain : Derives op.precedence (binary op a b).tokens (binary op a b).regrouped :=
      hb.rightOperand ha.leftOperand
    by_cases hsame : op.precedence = outer.precedence
    · -- the first operand joins what stands before, and the operation then goes on with that
      have hchains : Chains outer op := ⟨houter, hsame⟩
      have hinner := ha.innerOperand hchains hx
      rw [← hsame] at hinner
      have hwhole := hb.rightOperand hinner
      rw [← joinRight_assoc hchains, hsame] at hwhole
      simpa [tokens, regrouped] using hwhole
    · have hlt : outer.precedence < op.precedence := Nat.lt_of_le_of_ne hle (Ne.symm hsame)
      refine derives_of_lt hx hchain hlt ?_
      rw [precedence_regrouped]
      exact hsame

theorem isDerived_number (v : Binary64) : (number v).IsDerived := by
  have hstrong : negationPrecedence ≤ (number v).precedence := by
    rw [precedence]
    split <;> decide
  refine isDerived_of_strong hstrong (derives_of_isFactor _ ?_)
  show IsFactor v.tokens (unsigned v)
  unfold Binary64.tokens unsigned
  split
  · exact .number .zero
  · split
    · exact .minus (.number v.neg)
    · exact .number v

theorem negation_le_atom : negationPrecedence ≤ atomPrecedence := by decide

theorem isDerived (h : x.isWellFormed = true) : x.IsDerived := by
  induction x with
  | number v => exact isDerived_number v
  | ident name => exact isDerived_of_strong negation_le_atom (derives_of_isFactor _ (.ident name))
  | neg x ih =>
    have hfactor : Derives atomPrecedence (wrapIf (x.precedence ≤ negationPrecedence) x.tokens)
        x.regrouped := by
      refine (ih (isWellFormed_neg.1 h)).derives.wrapIf fun hneeded => ?_
      exact Nat.not_le.1 (of_decide_eq_false hneeded)
    exact isDerived_of_strong (Nat.le_refl _) (derives_of_isFactor _ (.minus hfactor))
  | binary op x y ihx ihy =>
    obtain ⟨hx, hy⟩ := isWellFormed_binary.1 h
    exact isDerived_binary (ihx hx) (ihy hy)
  | call name arguments ih =>
    obtain ⟨f, x, rfl, rfl, hx⟩ := isWellFormed_call.1 h
    have hcall := IsFactor.call f (ih x (List.mem_singleton_self x) hx).derives.isSum
    refine isDerived_of_strong negation_le_atom (derives_of_isFactor _ ?_)
    simpa [tokens, tokensAll, regrouped, regroupedAll] using hcall

end Expr

end MathMarkup
