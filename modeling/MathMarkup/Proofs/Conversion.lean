import Mathlib
import MathMarkup.Proofs.Render.Success
import MathMarkup.Settings
import MathMarkup.Value.Basic

/-!
# Errors of conversions

A value never meets an error of rendering. What is read from a text has proper names and known calls
of one argument, what is folded has finite numbers, and such expressions have markup; the elements
of a container are checked before they are rendered.
-/
namespace MathMarkup

/-! ## Containers -/

namespace Container

theorem cell_error {v : Binary64} {e : ConversionError} (h : cell v = .error e) :
    e = .evaluation (.element v) := by
  unfold cell at h
  split at h
  · next hv =>
    rw [Binary64.render_of_isFinite hv] at h
    cases h
  · cases h
    rfl

/-- An error about an element that is not finite. -/
def IsElementError (e : ConversionError) : Prop := ∃ v, e = .evaluation (.element v)

theorem row_error {values : List Binary64} {e : ConversionError} (h : row values = .error e) :
    IsElementError e := by
  induction values with
  | nil => cases h
  | cons v vs ih =>
    unfold row at h
    split at h
    · next hv =>
      cases h
      exact ⟨v, cell_error hv⟩
    · split at h
      · next hvs =>
        cases h
        exact ih hvs
      · cases h

theorem cells_error {rows : List (List Binary64)} {e : ConversionError}
    (h : cells rows = .error e) : IsElementError e := by
  induction rows with
  | nil => cases h
  | cons values rows ih =>
    unfold cells at h
    split at h
    · next hvalues =>
      cases h
      exact row_error hvalues
    · split at h
      · next hrows =>
        cases h
        exact ih hrows
      · cases h

theorem render_error {kind : ContainerKind} {layout : Layout} {rows : List (List Binary64)}
    {e : ConversionError} (h : render kind layout rows = .error e) :
    e = .emptyContainer kind ∨ IsElementError e := by
  unfold render at h
  split at h
  · cases h
    exact Or.inl rfl
  · cases h
    exact Or.inl rfl
  · split at h
    · next hcells =>
      cases h
      exact Or.inr (cells_error hcells)
    · cases h

end Container

/-! ## Texts -/

theorem Equation.isWellFormed_of_fold {equation folded : Equation}
    (h : equation.fold = .ok folded) (hsides : ∀ x ∈ equation.sides, x.IsReadable) :
    folded.sides.length = equation.sides.length ∧
      ∀ x ∈ folded.sides, x.isWellFormed = true := by
  unfold fold at h
  split at h
  · cases h
  · next xs hxs =>
    cases h
    refine ⟨(Expr.length_foldAll hxs).symm, fun y hy => ?_⟩
    obtain ⟨x, hx, hfold⟩ := Expr.exists_of_mem_foldAll hxs y hy
    exact Expr.isWellFormed_of_fold hfold (hsides x hx)

theorem Equation.exists_render_of_fold {text : Text} {equation folded : Equation}
    (layout : Layout) (hparse : parse text = .ok equation) (hfold : equation.fold = .ok folded) :
    ∃ markup, folded.render layout = .ok markup := by
  obtain ⟨hne, hsides⟩ := isReadable_of_parse hparse
  obtain ⟨hlength, hwell⟩ := isWellFormed_of_fold hfold hsides
  refine exists_render layout (fun hnil => hne ?_) hwell
  rw [hnil] at hlength
  exact List.length_eq_zero_iff.1 hlength.symm

theorem renderText_error {layout : Layout} {text : Text} {e : ConversionError}
    (h : renderText layout text = .error e) :
    (∃ cause, e = .parse cause) ∨ ∃ cause, e = .evaluation cause := by
  unfold renderText at h
  split at h
  · cases h
    exact Or.inl ⟨_, rfl⟩
  · next equation hparse =>
    split at h
    · cases h
      exact Or.inr ⟨_, rfl⟩
    · next folded hfold =>
      obtain ⟨markup, hmarkup⟩ := Equation.exists_render_of_fold layout hparse hfold
      rw [hmarkup] at h
      cases h

/-- The errors that values meet, and why none of them is one of rendering. -/
theorem Value.render_error_kinds (settings : Settings) :
    (∀ text e, (scalar text).render settings.layout = .error e →
      (∃ cause, e = .parse cause) ∨ ∃ cause, e = .evaluation cause) ∧
    (∀ values e, (vector values).render settings.layout = .error e →
      e = .emptyContainer .vector ∨ ∃ v, e = .evaluation (.element v)) ∧
    (∀ rows e, (matrix rows).render settings.layout = .error e →
      e = .emptyContainer .matrix ∨ ∃ v, e = .evaluation (.element v)) ∧
    (∀ text equation, Equation.parse text = .ok equation → equation.sides ≠ [] ∧
      ∀ x ∈ equation.sides, x.callsKnown = true ∧ x.namesProper = true) ∧
    (∀ x y : Expr, x.fold = .ok y → y.numbersFinite = true) ∧
    (∀ text equation folded, Equation.parse text = .ok equation → equation.fold = .ok folded →
      (∀ x ∈ folded.sides, x.isWellFormed = true) ∧
        ∃ markup, folded.render settings.layout = .ok markup) ∧
    (∀ v e, Container.cell v ≠ .error (.render e)) ∧
    Equation.parse "1e999".toList = .ok ⟨[.number (.infinity false)]⟩ := by
  refine ⟨fun text e => renderText_error, fun values e => Container.render_error,
    fun rows e => Container.render_error, fun text equation hparse => ?_,
    fun x y => Expr.numbersFinite_of_fold, fun text equation folded hparse hfold => ?_,
    fun v e hcell => ?_, by cbv⟩
  · obtain ⟨hne, hsides⟩ := Equation.isReadable_of_parse hparse
    exact ⟨hne, fun x hx => Expr.isReadable_iff.1 (hsides x hx)⟩
  · obtain ⟨-, hsides⟩ := Equation.isReadable_of_parse hparse
    exact ⟨(Equation.isWellFormed_of_fold hfold hsides).2,
      Equation.exists_render_of_fold settings.layout hparse hfold⟩
  · cases Container.cell_error hcell

/-- An open parenthesis, a vector without elements, a matrix with an infinite one, and a negation
of a name. -/
theorem Value.render_error_kinds_default :
    let unclosed : ConversionError := .parse ⟨.unclosed, some 1⟩
    let infinite : ConversionError := .evaluation (.element (.infinity true))
    let negation : Equation := ⟨[.neg (.ident ['x'])]⟩
    ((scalar ['(']).render Settings.default.layout = .error unclosed ∧
      ((∃ cause, unclosed = .parse cause) ∨ ∃ cause, unclosed = .evaluation cause)) ∧
    ((vector []).render Settings.default.layout = .error (.emptyContainer .vector) ∧
      (ConversionError.emptyContainer .vector = .emptyContainer .vector ∨
        ∃ v, ConversionError.emptyContainer .vector = .evaluation (.element v))) ∧
    ((matrix [[.zero], [.infinity true]]).render Settings.default.layout = .error infinite ∧
      (infinite = .emptyContainer .matrix ∨ ∃ v, infinite = .evaluation (.element v))) ∧
    (Equation.parse "-x".toList = .ok negation ∧ negation.fold = .ok negation ∧
      negation.sides ≠ [] ∧
      (∀ x ∈ negation.sides, x.callsKnown = true ∧ x.namesProper = true) ∧
      (∀ x ∈ negation.sides, x.isWellFormed = true) ∧
      ∃ markup, negation.render Settings.default.layout = .ok markup) ∧
    ((Expr.neg (.number .zero)).fold = .ok (.number .zero) ∧
      (Expr.number .zero).numbersFinite = true) := by
  intro unclosed infinite negation
  obtain ⟨hscalar, hvector, hmatrix, hparsed, hfinite, hfolded, -⟩ :=
    render_error_kinds Settings.default
  have hunclosed : (scalar ['(']).render Settings.default.layout = .error unclosed := by
    dsimp only [unclosed]
    cbv
  have hempty : (vector []).render Settings.default.layout =
      .error (.emptyContainer .vector) := rfl
  have hinfinite : (matrix [[.zero], [.infinity true]]).render Settings.default.layout =
      .error infinite := rfl
  have hparse : Equation.parse "-x".toList = .ok negation := by
    dsimp only [negation]
    cbv
  have hfold : negation.fold = .ok negation := rfl
  have hzero : (Expr.neg (.number .zero)).fold = .ok (.number .zero) := rfl
  exact ⟨⟨hunclosed, hscalar _ _ hunclosed⟩, ⟨hempty, hvector _ _ hempty⟩,
    ⟨hinfinite, hmatrix _ _ hinfinite⟩,
    ⟨hparse, hfold, (hparsed _ _ hparse).1, (hparsed _ _ hparse).2,
      hfolded _ _ _ hparse hfold⟩, hzero, hfinite _ _ hzero⟩

end MathMarkup
