import Mathlib
import MathMarkup.Expr.Diagnosis
import MathMarkup.Proofs.Parse.Grammar

/-!
# Balanced parentheses

In balanced tokens every parenthesis has its partner, and none is left that could be the partner of
a parenthesis outside. What the grammar derives is balanced.
-/
namespace MathMarkup

namespace Parse

variable {ts us inner rest before after : List Token}

/-! ## Putting tokens together -/

theorem Balanced.append (hts : Balanced ts) (hus : Balanced us) : Balanced (ts ++ us) := by
  induction hts with
  | nil => exact hus
  | plain hopening hclosing _ ih => exact .plain hopening hclosing ih
  | @pair inner ts hinner _ _ ih =>
    rw [List.cons_append, List.append_assoc, List.cons_append]
    exact .pair hinner ih

theorem ClosedIn.append (h : ClosedIn after) (more : List Token) : ClosedIn (after ++ more) := by
  obtain ⟨inner, rest, rfl, hinner⟩ := h
  exact ⟨inner, rest ++ more, by rw [List.append_assoc, List.cons_append], hinner⟩

theorem OpenedIn.append (h : OpenedIn before) (more : List Token) : OpenedIn (more ++ before) := by
  obtain ⟨rest, inner, rfl, hinner⟩ := h
  exact ⟨more ++ rest, inner, by rw [List.append_assoc], hinner⟩

/-! ## Partners inside -/

/-- Every opening parenthesis of balanced tokens has its partner among them. -/
theorem Balanced.closedIn (h : Balanced ts) (hts : ts = before ++ .opening :: after) :
    ClosedIn after := by
  induction h generalizing before after with
  | nil => simp at hts
  | @plain t ts hopening _ _ ih =>
    cases before with
    | nil => exact absurd (List.cons.inj hts).1 hopening
    | cons u before => exact ih (List.cons.inj hts).2
  | @pair inner ts hinner _ ihinner ihts =>
    cases before with
    | nil => exact ⟨inner, ts, (List.cons.inj hts).2.symm, hinner⟩
    | cons u before =>
      rcases List.append_eq_append_iff.1 (List.cons.inj hts).2 with
        ⟨middle, rfl, hmiddle⟩ | ⟨middle, rfl, hmiddle⟩
      · cases middle with
        | nil => cases (List.cons.inj hmiddle).1
        | cons v middle => exact ihts (List.cons.inj hmiddle).2
      · cases middle with
        | nil => cases (List.cons.inj hmiddle).1
        | cons v middle =>
          obtain ⟨rfl, rfl⟩ := List.cons.inj hmiddle
          exact (ihinner rfl).append _

/-- Every closing parenthesis of balanced tokens has its partner among them. -/
theorem Balanced.openedIn (h : Balanced ts) (hts : ts = before ++ .closing :: after) :
    OpenedIn before := by
  induction h generalizing before after with
  | nil => simp at hts
  | @plain t ts _ hclosing _ ih =>
    cases before with
    | nil => exact absurd (List.cons.inj hts).1 hclosing
    | cons u before => exact (ih (List.cons.inj hts).2).append [u]
  | @pair inner ts hinner _ ihinner ihts =>
    cases before with
    | nil => cases (List.cons.inj hts).1
    | cons u before =>
      obtain ⟨rfl, htail⟩ := List.cons.inj hts
      rcases List.append_eq_append_iff.1 htail with ⟨middle, rfl, hmiddle⟩ | ⟨middle, rfl, hmiddle⟩
      · cases middle with
        | nil => exact ⟨[], inner, by rw [List.append_nil]; rfl, hinner⟩
        | cons v middle =>
          rw [← List.cons_append]
          exact ((ihts (List.cons.inj hmiddle).2).append [v]).append _
      · cases middle with
        | nil => exact ⟨[], before, rfl, by rwa [List.append_nil] at hinner⟩
        | cons v middle =>
          obtain ⟨rfl, -⟩ := List.cons.inj hmiddle
          exact (ihinner rfl).append [.opening]

/-! ## No partners for the outside -/

theorem Balanced.count_eq (h : Balanced ts) : ts.count .opening = ts.count .closing := by
  induction h with
  | nil => rfl
  | plain hopening hclosing _ ih =>
    rw [List.count_cons_of_ne hopening, List.count_cons_of_ne hclosing, ih]
  | pair _ _ ihinner ihts =>
    simp only [List.count_cons, List.count_append, ihinner, ihts, beq_self_eq_true,
      if_true, reduceCtorEq, beq_iff_eq, if_false]
    omega

/-- From the left, a closing parenthesis only comes after its opening one. -/
theorem Balanced.count_le (h : Balanced ts) (hts : ts = us ++ rest) :
    us.count .closing ≤ us.count .opening := by
  induction h generalizing us rest with
  | nil =>
    obtain ⟨rfl, -⟩ := List.append_eq_nil_iff.1 hts.symm
    exact Nat.le_refl _
  | plain hopening hclosing _ ih =>
    cases us with
    | nil => exact Nat.le_refl _
    | cons u us =>
      obtain ⟨rfl, htail⟩ := List.cons.inj hts
      rw [List.count_cons_of_ne hopening, List.count_cons_of_ne hclosing]
      exact ih htail
  | @pair inner ts hinner _ ihinner ihts =>
    cases us with
    | nil => exact Nat.le_refl _
    | cons u us =>
      obtain ⟨rfl, htail⟩ := List.cons.inj hts
      rw [List.count_cons_self, List.count_cons_of_ne (by simp)]
      rcases List.append_eq_append_iff.1 htail with ⟨middle, rfl, hmiddle⟩ | ⟨middle, rfl, hmiddle⟩
      · cases middle with
        | nil => simpa using Nat.le_succ_of_le (Nat.le_of_eq hinner.count_eq.symm)
        | cons v middle =>
          obtain ⟨rfl, hrest⟩ := List.cons.inj hmiddle
          have hle := ihts hrest
          have hcount := hinner.count_eq
          rw [List.count_append, List.count_append, List.count_cons_self,
            List.count_cons_of_ne (by simp)]
          omega
      · exact Nat.le_succ_of_le (ihinner rfl)

theorem Balanced.not_closedIn (h : Balanced ts) : ¬ ClosedIn ts := by
  rintro ⟨inner, rest, rfl, hinner⟩
  have hle := h.count_le (List.append_cons inner .closing rest)
  have hcount := hinner.count_eq
  rw [List.count_append, List.count_append, List.count_singleton_self,
    List.count_singleton, if_neg (by simp)] at hle
  omega

theorem Balanced.not_openedIn (h : Balanced ts) : ¬ OpenedIn ts := by
  rintro ⟨rest, inner, rfl, hinner⟩
  have hle := h.count_le rfl
  have hcount := h.count_eq
  have hinnerCount := hinner.count_eq
  rw [List.count_append, List.count_append, List.count_cons_self,
    List.count_cons_of_ne (by simp)] at hcount
  omega

end Parse

/-! ## Derived tokens -/

namespace Grammar

open Parse

/-- Tokens of an operand: balanced, and the last one may be the last of an operand. -/
structure IsOperand (ts : List Token) : Prop where
  balanced : Balanced ts
  endsOperand : ∃ front last, ts = front ++ [last] ∧ last.endsOperand = true

variable {ts us : List Token} {x : Expr}

theorem IsOperand.cons {t : Token} (h : IsOperand ts) (hopening : t ≠ .opening)
    (hclosing : t ≠ .closing) : IsOperand (t :: ts) := by
  obtain ⟨front, last, rfl, hlast⟩ := h.endsOperand
  exact ⟨.plain hopening hclosing h.balanced, t :: front, last, rfl, hlast⟩

theorem IsOperand.append (hts : IsOperand ts) (hus : IsOperand us) : IsOperand (ts ++ us) := by
  obtain ⟨front, last, rfl, hlast⟩ := hus.endsOperand
  exact ⟨hts.balanced.append hus.balanced, ts ++ front, last, (List.append_assoc ..).symm, hlast⟩

theorem IsOperand.single {t : Token} (hopening : t ≠ .opening) (hclosing : t ≠ .closing)
    (ht : t.endsOperand = true) : IsOperand [t] :=
  ⟨.plain hopening hclosing .nil, [], t, rfl, ht⟩

theorem IsOperand.group (h : IsOperand ts) : IsOperand (.opening :: ts ++ [.closing]) :=
  ⟨.pair h.balanced .nil, .opening :: ts, .closing, rfl, rfl⟩

mutual

theorem IsSum.isOperand {ts : List Token} {x : Expr} : IsSum ts x → IsOperand ts
  | .product h => h.isOperand
  | .step hs _ hp => hs.isOperand.append (hp.isOperand.cons (by simp) (by simp))

theorem IsProduct.isOperand {ts : List Token} {x : Expr} : IsProduct ts x → IsOperand ts
  | .factor h => h.isOperand
  | .step hp _ hf => hp.isOperand.append (hf.isOperand.cons (by simp) (by simp))

theorem IsFactor.isOperand {ts : List Token} {x : Expr} : IsFactor ts x → IsOperand ts
  | .minus h => h.isOperand.cons (by simp) (by simp)
  | .plus h => h.isOperand.cons (by simp) (by simp)
  | .number v => .single (by simp) (by simp) rfl
  | .ident name => .single (by simp) (by simp) rfl
  | .call f h => h.isOperand.group.cons (by simp) (by simp)
  | .group h => h.isOperand.group

end

end Grammar

end MathMarkup
