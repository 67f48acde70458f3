import Mathlib
import MathMarkup.Expr.Render
import MathMarkup.Proofs.Text
import MathMarkup.Text.Blank

/-!
# Ink

Markup without what only keeps its words apart: the pretty layout does it with spaces and line
breaks, the compact one with empty braces. Two texts have the same ink if they are equal without
them, whatever follows the compact one.
-/
namespace MathMarkup.Markup

/-- Deletes all empty braces from a text. -/
def withoutEmptyBraces : Text → Text
  | '\x7b' :: '\x7d' :: rest => withoutEmptyBraces rest
  | c :: rest => c :: withoutEmptyBraces rest
  | [] => []

/-- The blanks that the pretty layout uses. -/
def isSpacing (c : Char) : Bool := c = ' ' || c = '\n'

/-- Deletes all spaces and line breaks from a text. -/
def withoutSpacing (text : Text) : Text := text.filter fun c => !isSpacing c

theorem withoutEmptyBraces_cons {c : Char} (hc : c ≠ '\x7b') (rest : Text) :
    withoutEmptyBraces (c :: rest) = c :: withoutEmptyBraces rest := by
  rw [withoutEmptyBraces]
  rintro after h
  exact absurd h hc

theorem withoutEmptyBraces_open {c : Char} (hc : c ≠ '\x7d') (rest : Text) :
    withoutEmptyBraces ('\x7b' :: c :: rest) = '\x7b' :: withoutEmptyBraces (c :: rest) := by
  rw [withoutEmptyBraces]
  rintro after - ⟨⟩
  exact hc rfl

/-- The compact text has no blanks, the pretty one only spacing, and deleting the empty braces of
the one gives the same as deleting the spacing of the other. -/
structure SameInk (compact pretty : Text) : Prop where
  solid : ∀ c ∈ compact, Text.isBlank c = false
  spaced : ∀ c ∈ pretty, Text.isBlank c = true → c = ' ' ∨ c = '\n'
  ink : ∀ rest, withoutEmptyBraces (compact ++ rest) =
    withoutSpacing pretty ++ withoutEmptyBraces rest

/-- The text begins with ink, and empty braces are not made by an opening brace in front of it. -/
def BeginsInk (text : Text) : Prop := ∃ c rest, text = c :: rest ∧ c ≠ '\x7d'

theorem BeginsInk.append {text : Text} (h : BeginsInk text) (rest : Text) :
    BeginsInk (text ++ rest) := by
  obtain ⟨c, more, rfl, hc⟩ := h
  exact ⟨c, more ++ rest, rfl, hc⟩

namespace SameInk

variable {compact pretty : Text}

theorem ink_eq (h : SameInk compact pretty) :
    withoutSpacing pretty = withoutEmptyBraces compact := by
  have hink := h.ink []
  rw [List.append_nil] at hink
  simpa [withoutEmptyBraces] using hink.symm

/-! ## Putting texts together -/

theorem nil : SameInk [] [] where
  solid := by simp
  spaced := by simp
  ink _ := rfl

theorem append {compact' pretty' : Text} (h : SameInk compact pretty)
    (h' : SameInk compact' pretty') : SameInk (compact ++ compact') (pretty ++ pretty') where
  solid c hc := by
    rcases List.mem_append.1 hc with hc | hc
    · exact h.solid c hc
    · exact h'.solid c hc
  spaced c hc hblank := by
    rcases List.mem_append.1 hc with hc | hc
    · exact h.spaced c hc hblank
    · exact h'.spaced c hc hblank
  ink rest := by
    have hspacing : withoutSpacing (pretty ++ pretty') =
        withoutSpacing pretty ++ withoutSpacing pretty' := List.filter_append ..
    rw [List.append_assoc, h.ink, h'.ink, hspacing, List.append_assoc]

/-- A character that stands in both layouts. -/
theorem single {c : Char} (hblank : Text.isBlank c = false) (hc : c ≠ '\x7b') :
    SameInk [c] [c] where
  solid d hd := by
    cases List.mem_singleton.1 hd
    exact hblank
  spaced d hd hd' := by
    cases List.mem_singleton.1 hd
    rw [hblank] at hd'
    cases hd'
  ink rest := by
    have hspacing : isSpacing c = false := by
      simp only [isSpacing, Bool.or_eq_false_iff, decide_eq_false_iff_not]
      constructor <;> rintro rfl <;> exact absurd hblank (by decide)
    simp [withoutEmptyBraces_cons hc, withoutSpacing, hspacing]

theorem cons {c : Char} (hblank : Text.isBlank c = false) (hc : c ≠ '\x7b')
    (h : SameInk compact pretty) : SameInk (c :: compact) (c :: pretty) :=
  (single hblank hc).append h

/-- A text of characters that no layout touches. -/
theorem plain {text : Text} (h : ∀ c ∈ text, Text.isBlank c = false ∧ c ≠ '\x7b') :
    SameInk text text := by
  induction text with
  | nil => exact nil
  | cons c text ih =>
    obtain ⟨hblank, hc⟩ := h c List.mem_cons_self
    exact (ih fun d hd => h d (List.mem_cons_of_mem c hd)).cons hblank hc

theorem open_cons (hbegins : BeginsInk compact) (h : SameInk compact pretty) :
    SameInk ('\x7b' :: compact) ('\x7b' :: pretty) where
  solid c hc := by
    rcases List.mem_cons.1 hc with rfl | hc
    · decide
    · exact h.solid c hc
  spaced c hc hblank := by
    rcases List.mem_cons.1 hc with rfl | hc
    · exact absurd hblank (by decide)
    · exact h.spaced c hc hblank
  ink rest := by
    obtain ⟨c, more, rfl, hc⟩ := hbegins
    have hink := h.ink rest
    rw [List.cons_append] at hink ⊢
    rw [List.cons_append, withoutEmptyBraces_open hc, hink]
    rfl

/-- A space or line break of the pretty layout. -/
theorem spacing {c : Char} (hc : c = ' ' ∨ c = '\n') : SameInk [] [c] where
  solid := by simp
  spaced d hd _ := by
    cases List.mem_singleton.1 hd
    exact hc
  ink rest := by rcases hc with rfl | rfl <;> rfl

/-- The empty braces of the compact layout. -/
theorem emptyBraces : SameInk ['\x7b', '\x7d'] [] where
  solid c hc := by
    simp only [List.mem_cons, List.not_mem_nil, or_false] at hc
    rcases hc with rfl | rfl <;> decide
  spaced := by simp
  ink _ := rfl

theorem parenthesizeIf (needed : Bool) (h : SameInk compact pretty) :
    SameInk (MathMarkup.parenthesizeIf needed compact)
      (MathMarkup.parenthesizeIf needed pretty) := by
  cases needed with
  | false => exact h
  | true => exact (h.append (single (by decide) (by decide))).cons (by decide) (by decide)

theorem join {separator separator' : Text} (hseparator : SameInk separator separator')
    {compacts prettys : List Text} (h : List.Forall₂ SameInk compacts prettys) :
    SameInk (Text.join separator compacts) (Text.join separator' prettys) := by
  unfold Text.join
  induction h with
  | nil => exact nil
  | @cons compact pretty compacts prettys hfirst hrest ih =>
    cases hrest with
    | nil => simpa using hfirst
    | cons hsecond hrest =>
      rw [List.intercalate_cons_cons, List.intercalate_cons_cons]
      exact (hfirst.append hseparator).append ih

end SameInk

theorem BeginsInk.parenthesizeIf {text : Text} (needed : Bool) (h : BeginsInk text) :
    BeginsInk (MathMarkup.parenthesizeIf needed text) := by
  cases needed with
  | false => exact h
  | true => exact ⟨'(', _, rfl, by decide⟩

end MathMarkup.Markup
