import Mathlib
import MathMarkup.Expr.Render
import MathMarkup.Proofs.WellFormed

/-!
# Well-formed expressions have markup
-/
namespace MathMarkup

theorem Binary64.render_of_isFinite {v : Binary64} (h : v.isFinite = true) :
    v.render = .ok (if v.isZero then ['0'] else v.toText) := by
  rw [render, h]
  cases v.isZero <;> rfl

theorem Binary64.isFinite_of_render {v : Binary64} {text : Text} (h : v.render = .ok text) :
    v.isFinite = true := by
  unfold render at h
  split at h
  · cases h
  · next hv => simpa using hv

namespace Expr

variable {layout : Layout}

/-! ## Single nodes -/

theorem render_neg_of_ok {x : Expr} {text : Text} (h : x.render layout = .ok text) :
    (neg x).render layout =
      .ok ('-' :: parenthesizeIf (x.precedence ≤ negationPrecedence) text) := by
  rw [render, h]

theorem render_binary_of_ok {op : BinaryOp} {x y : Expr} {left right : Text}
    (hx : x.render layout = .ok left) (hy : y.render layout = .ok right) :
    (binary op x y).render layout = .ok (op.render layout (parenthesizeIf (op.wrapsLeft x) left)
      (parenthesizeIf (op.wrapsRight y) right)) := by
  simp only [render, hx, hy]

theorem render_call_of_ok {name : Text} {x : Expr} {text : Text} (hname : name ≠ [])
    (h : x.render layout = .ok text) :
    (call name [x]).render layout = .ok ('\\' :: name ++ '\x7b' :: text ++ ['\x7d']) := by
  simp only [render, hname, if_false, h]

theorem ne_nil_of_isName {name : Text} (h : isName name = true) : name ≠ [] := by
  rintro rfl
  cases h

theorem render_ident_of_isName {name : Text} (h : isName name = true) :
    (ident name).render layout = .ok name := by
  rw [render, if_neg (ne_nil_of_isName h)]

/-! ## Well-formed nodes -/

theorem isWellFormed_number {v : Binary64} : (number v).isWellFormed = v.isFinite := by
  simp [isWellFormed, callsKnown, namesProper, numbersFinite, subtrees, hasKnownCall,
    hasProperName, hasFiniteValue]

theorem isWellFormed_ident {name : Text} : (ident name).isWellFormed = isName name := by
  simp [isWellFormed, callsKnown, namesProper, numbersFinite, subtrees, hasKnownCall,
    hasProperName, hasFiniteValue]

theorem isWellFormed_iff_forall {x : Expr} : x.isWellFormed = true ↔
    ∀ z ∈ x.subtrees, (z.hasKnownCall = true ∧ z.hasProperName = true) ∧
      z.hasFiniteValue = true := by
  rw [isWellFormed_iff, numbersFinite_iff, IsReadable, ← forall₂_and]

theorem isWellFormed_neg {x : Expr} :
    (neg x).isWellFormed = true ↔ x.isWellFormed = true := by
  rw [isWellFormed_iff_forall, isWellFormed_iff_forall, forall_mem_subtrees_neg]
  simp [hasKnownCall, hasProperName, hasFiniteValue]

theorem isWellFormed_binary {op : BinaryOp} {x y : Expr} :
    (binary op x y).isWellFormed = true ↔ x.isWellFormed = true ∧ y.isWellFormed = true := by
  rw [isWellFormed_iff_forall, isWellFormed_iff_forall, isWellFormed_iff_forall,
    forall_mem_subtrees_binary]
  simp [hasKnownCall, hasProperName, hasFiniteValue]

/-- A well-formed call is of one of the known functions, with one well-formed argument. -/
theorem isWellFormed_call {name : Text} {arguments : List Expr} :
    (call name arguments).isWellFormed = true ↔
      ∃ (f : ElementaryFunction) (x : Expr), name = f.name ∧ arguments = [x] ∧
        x.isWellFormed = true := by
  rw [isWellFormed_iff_forall, forall_mem_subtrees_call]
  simp only [hasKnownCall, hasProperName, hasFiniteValue, Bool.and_eq_true, decide_eq_true_eq,
    Option.isSome_iff_exists, and_true]
  constructor
  · rintro ⟨⟨⟨f, hf⟩, hlen⟩, h⟩
    obtain ⟨x, rfl⟩ := List.length_eq_one_iff.1 hlen
    exact ⟨f, x, (ElementaryFunction.name_of_ofName? hf).symm, rfl,
      isWellFormed_iff_forall.2 (h x (List.mem_singleton_self x))⟩
  · rintro ⟨f, x, rfl, rfl, hx⟩
    refine ⟨⟨⟨f, ElementaryFunction.ofName?_name f⟩, rfl⟩, fun y hy => ?_⟩
    cases List.mem_singleton.1 hy
    exact isWellFormed_iff_forall.1 hx

/-! ## Success -/

theorem exists_render {x : Expr} (layout : Layout) (h : x.isWellFormed = true) :
    ∃ text, x.render layout = .ok text := by
  induction x with
  | number v =>
    rw [isWellFormed_number] at h
    exact ⟨_, Binary64.render_of_isFinite h⟩
  | ident name =>
    rw [isWellFormed_ident] at h
    exact ⟨name, render_ident_of_isName h⟩
  | neg x ih =>
    obtain ⟨text, htext⟩ := ih (isWellFormed_neg.1 h)
    exact ⟨_, render_neg_of_ok htext⟩
  | binary op x y ihx ihy =>
    obtain ⟨hx, hy⟩ := isWellFormed_binary.1 h
    obtain ⟨left, hleft⟩ := ihx hx
    obtain ⟨right, hright⟩ := ihy hy
    exact ⟨_, render_binary_of_ok hleft hright⟩
  | call name arguments ih =>
    obtain ⟨f, x, rfl, rfl, hx⟩ := isWellFormed_call.1 h
    obtain ⟨text, htext⟩ := ih x (List.mem_singleton_self x) hx
    exact ⟨_, render_call_of_ok (by cases f <;> decide) htext⟩

theorem exists_renderAll {xs : List Expr} (layout : Layout)
    (h : ∀ x ∈ xs, x.isWellFormed = true) : ∃ texts, renderAll layout xs = .ok texts := by
  induction xs with
  | nil => exact ⟨[], rfl⟩
  | cons x xs ih =>
    obtain ⟨text, htext⟩ := exists_render layout (h x List.mem_cons_self)
    obtain ⟨texts, htexts⟩ := ih fun y hy => h y (List.mem_cons_of_mem x hy)
    exact ⟨text :: texts, by simp only [renderAll, htext, htexts]⟩

end Expr

theorem Equation.render_of_ok {layout : Layout} {equation : Equation} {texts : List Text}
    (hne : equation.sides ≠ []) (h : Expr.renderAll layout equation.sides = .ok texts) :
    equation.render layout = .ok (Text.join (separator layout) texts) := by
  unfold render
  split
  · next hnil => exact absurd hnil hne
  · rw [h]

theorem Equation.exists_render {equation : Equation} (layout : Layout) (hne : equation.sides ≠ [])
    (h : ∀ x ∈ equation.sides, x.isWellFormed = true) :
    ∃ text, equation.render layout = .ok text := by
  obtain ⟨texts, htexts⟩ := Expr.exists_renderAll layout h
  exact ⟨_, render_of_ok hne htexts⟩

end MathMarkup
