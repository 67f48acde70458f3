import Mathlib
import MathMarkup.Proofs.Parse.Grammar
import MathMarkup.Proofs.Regroup.NormalForm
import MathMarkup.Proofs.Render.Derivation

/-!
# Rendered equations are read back

The markup of an equation is turned into a text whose sides are scanned as the tokens of its sides,
and the grammar derives these as the regrouped sides.
-/
namespace MathMarkup

open Markup Relation

/-! ## Joining sides -/

theorem Equation.separator_eq (layout : Layout) :
    separator layout = layout.gap ++ '=' :: layout.gap := by
  cases layout <;> rfl

theorem Text.append_join (separator blanks first : Text) (rest : List Text) :
    blanks ++ join separator (first :: rest) = join separator ((blanks ++ first) :: rest) := by
  cases rest with
  | nil => simp [join, List.intercalate]
  | cons second rest => simp [join_cons_cons]

theorem Markup.translates_join (layout : Layout) {markup text : Text} {markups texts : List Text}
    (hfirst : Translates markup text) (hrest : List.Forall₂ Translates markups texts) :
    Translates (Text.join (Equation.separator layout) (markup :: markups))
      (Text.join (Equation.separator layout) (text :: texts)) := by
  have hseparator : Translates (Equation.separator layout) (Equation.separator layout) := by
    cases layout <;> exact .plain (List.cons_ne_nil _ _) rfl
  induction hrest generalizing markup text with
  | nil => simpa [Text.join, List.intercalate] using hfirst
  | cons hsecond _ ih =>
    rw [Text.join_cons_cons, Text.join_cons_cons]
    exact hfirst.append (hseparator.append (ih hsecond))

theorem Markup.Translates.toInput_eq {markup text : Text} (h : Translates markup text) :
    toInput markup = text := by
  have htext := h.translated [] []
  rwa [List.append_nil, toInputFrom, List.append_nil] at htext

namespace Spells

variable {text : Text} {ts : List Token}

theorem gap_append (layout : Layout) (h : Spells text ts) : Spells (layout.gap ++ text) ts := by
  cases layout with
  | compact => exact h
  | pretty => exact h.blank_cons rfl

theorem append_gap (layout : Layout) (h : Spells text ts) : Spells (text ++ layout.gap) ts := by
  cases layout with
  | compact => simpa [Layout.gap] using h
  | pretty =>
    have hblank := h.append (Spells.nil.blank_cons rfl) (List.cons_ne_nil ' ' [])
      (endsLexeme_cons rfl (by decide) (by decide) [])
    simpa [Layout.gap] using hblank

theorem forall₂_split_join (layout : Layout) {texts : List Text} {kindss : List (List Token)}
    (hfirst : Spells text ts) (hrest : List.Forall₂ Spells texts kindss) :
    List.Forall₂ (fun part ts => Token.ofText part = .ok ts)
      ((Text.join (Equation.separator layout) (text :: texts)).split '=') (ts :: kindss) := by
  induction hrest generalizing text ts with
  | nil =>
    have hjoin : Text.join (Equation.separator layout) [text] = text := by
      simp [Text.join, List.intercalate]
    rw [hjoin, Text.split_of_not_mem hfirst.oneSide]
    exact .cons hfirst.ofText .nil
  | @cons second us texts kindss hsecond _ ih =>
    have hjoin : Text.join (Equation.separator layout) (text :: second :: texts) =
        (text ++ layout.gap) ++
          '=' :: Text.join (Equation.separator layout) ((layout.gap ++ second) :: texts) := by
      rw [Text.join_cons_cons, ← Text.append_join]
      simp [Equation.separator_eq]
    have hside := hfirst.append_gap layout
    rw [hjoin, Text.split_append_cons hside.oneSide]
    exact .cons hside.ofText (ih (hsecond.gap_append layout))

end Spells

/-! ## Reading back -/

theorem Expr.exists_spellsAll (layout : Layout) {sides : List Expr}
    (h : ∀ x ∈ sides, x.isWellFormed = true) :
    ∃ markups texts, renderAll layout sides = .ok markups ∧
      List.Forall₂ Translates markups texts ∧ List.Forall₂ Spells texts (sides.map tokens) := by
  induction sides with
  | nil => exact ⟨[], [], rfl, .nil, .nil⟩
  | cons x sides ih =>
    obtain ⟨markup, text, hrender, htext, hspells⟩ := exists_spells layout (h x List.mem_cons_self)
    obtain ⟨markups, texts, hrenders, htexts, hspellss⟩ :=
      ih fun y hy => h y (List.mem_cons_of_mem x hy)
    exact ⟨markup :: markups, text :: texts, by simp only [renderAll, hrender, hrenders],
      .cons htext htexts, .cons hspells hspellss⟩

/-- An equation with well-formed sides has markup, and it reads as the regrouped sides. -/
theorem Equation.exists_parse_render (layout : Layout) {sides : List Expr} (hne : sides ≠ [])
    (h : ∀ x ∈ sides, x.isWellFormed = true) :
    ∃ markup, render layout ⟨sides⟩ = .ok markup ∧
      parse (toInput markup) = .ok ⟨sides.map Expr.regrouped⟩ := by
  obtain ⟨markups, texts, hrender, htranslates, hspells⟩ := Expr.exists_spellsAll layout h
  refine ⟨_, render_of_ok hne hrender, ?_⟩
  have hsums : List.Forall₂ Grammar.IsSum (sides.map Expr.tokens) (sides.map Expr.regrouped) := by
    rw [List.forall₂_map_left_iff, List.forall₂_map_right_iff, List.forall₂_same]
    exact fun x hx => (Expr.isDerived (h x hx)).derives.isSum
  cases sides with
  | nil => exact absurd rfl hne
  | cons x sides =>
    cases hspells with
    | cons hfirst hrest =>
      cases htranslates with
      | cons htranslate htranslates =>
        rw [(translates_join layout htranslate htranslates).toInput_eq]
        exact (Parse.parse_eq_ok_iff (hfirst.forall₂_split_join layout hrest)).2 hsums

/-- Rendering loses no structure: what is read back from the markup of well-formed sides is what
regrouping makes of them, in whatever order its steps are taken, and the steps come to an end. -/
theorem Equation.parse_toInput_render (layout : Layout) {sides : List Expr} (hne : sides ≠ [])
    (h : ∀ x ∈ sides, x.isWellFormed = true) :
    (∃ markup, render layout ⟨sides⟩ = .ok markup ∧
      parse (toInput markup) = .ok ⟨sides.map Expr.regrouped⟩) ∧
    (∀ x y : Expr, y = x.regrouped ↔ ReflTransGen Expr.Regroups x y ∧ y.IsRegrouped) ∧
    WellFounded fun y x : Expr => Expr.Regroups x y :=
  ⟨exists_parse_render layout hne h, fun _ _ => Expr.eq_regrouped_iff, Expr.wellFounded_regroups⟩

open MathMarkup.Expr in
/-- A chain that parentheses stood in, with a number below zero at its end. -/
theorem Equation.parse_toInput_render_chain :
    let a : Expr := ident ['a']
    let b : Expr := ident ['b']
    let two : Binary64 := ⟨false, 2 ^ 62, by decide⟩
    let sides : List Expr := [binary .add a (binary .sub b (number two.neg)),
      call "sin".toList [binary .mul a (binary .div b (neg a))]]
    sides ≠ [] ∧ (∀ x ∈ sides, x.isWellFormed = true) ∧
    ∃ markup, render .compact ⟨sides⟩ = .ok markup ∧
      parse (toInput markup) = .ok ⟨[binary .sub (binary .add a b) (neg (number two)),
        call "sin".toList [binary .div (binary .mul a b) (neg a)]]⟩ := by
  intro a b two sides
  have hne : sides ≠ [] := nofun
  have hwell : ∀ x ∈ sides, x.isWellFormed = true := by decide
  have hregrouped : sides.map regrouped = [binary .sub (binary .add a b) (neg (number two)),
      call "sin".toList [binary .div (binary .mul a b) (neg a)]] := by decide
  exact ⟨hne, hwell, hregrouped ▸ (Equation.parse_toInput_render .compact hne hwell).1⟩

end MathMarkup
