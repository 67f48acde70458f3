import Mathlib
import MathMarkup.Expr.Reread
import MathMarkup.Proofs.Render.Success
import MathMarkup.Proofs.Text

/-!
# Reading markup back, piece by piece

Rendered markup never leaves a brace open or a control word unfinished, so that what a piece of it
is turned into depends neither on the braces around it nor on what follows.
-/
namespace MathMarkup.Markup

/-! ## One step -/

theorem toInputFrom_plain {stack : List Bool} {c : Char} {rest : Text} (hslash : c ≠ '\\')
    (hopen : c ≠ '\x7b') (hclose : c ≠ '\x7d') :
    toInputFrom stack (c :: rest) = c :: toInputFrom stack rest := by
  rw [toInputFrom] <;> assumption

theorem toInputFrom_close {stack : List Bool} {rest : Text} :
    toInputFrom (true :: stack) ('\x7d' :: rest) = ')' :: toInputFrom stack rest := by
  rw [toInputFrom]

theorem run_isAlpha {word after : Text} (hword : word.all Char.isAlpha = true)
    (hafter : ∀ c rest, after = c :: rest → c.isAlpha = false) :
    (word ++ after).takeWhile Char.isAlpha = word ∧
      (word ++ after).dropWhile Char.isAlpha = after :=
  Text.takeWhile_append (List.all_eq_true.1 hword) hafter

/-- A control word other than that of the multiplication sign, in front of an argument. -/
theorem toInputFrom_word {stack : List Bool} {word rest : Text}
    (hword : word.all Char.isAlpha = true) (hcdot : word ≠ "cdot".toList) :
    toInputFrom stack ('\\' :: (word ++ '\x7b' :: rest)) =
      word ++ '(' :: toInputFrom (true :: stack) rest := by
  have hend : ∀ c after, '\x7b' :: rest = c :: after → c.isAlpha = false := by
    rintro c after ⟨⟩
    rfl
  obtain ⟨htake, hdrop⟩ := run_isAlpha hword hend
  rw [toInputFrom]
  simp only [htake, hdrop, if_neg hcdot, List.head?_cons, if_true, List.tail_cons]

theorem toInputFrom_cdot {stack : List Bool} {after : Text}
    (h : ∀ c rest, after = c :: rest → c.isAlpha = false) :
    toInputFrom stack ('\\' :: ("cdot".toList ++ after)) =
      '*' :: toInputFrom stack (dropEmptyBraces after) := by
  have hword : "cdot".toList.all Char.isAlpha = true := rfl
  obtain ⟨htake, hdrop⟩ := run_isAlpha hword h
  rw [toInputFrom]
  simp only [htake, hdrop, if_true]

theorem dropEmptyBraces_cons {c : Char} (rest : Text) (hc : c ≠ '\x7b') :
    dropEmptyBraces (c :: rest) = c :: rest := by
  unfold dropEmptyBraces
  split
  · next h =>
    cases h
    exact absurd rfl hc
  · rfl

/-! ## Pieces -/

/-- Markup that is turned into the text wherever it stands. -/
structure Translates (markup text : Text) : Prop where
  head : ∃ c rest, markup = c :: rest ∧ c ≠ '\x7b'
  translated : ∀ stack rest, toInputFrom stack (markup ++ rest) = text ++ toInputFrom stack rest

/-- A character that markup has no use for. -/
def isPlain (c : Char) : Bool := c ≠ '\\' && c ≠ '\x7b' && c ≠ '\x7d'

theorem toInputFrom_cons {stack : List Bool} {c : Char} (h : isPlain c = true) (rest : Text) :
    toInputFrom stack (c :: rest) = c :: toInputFrom stack rest := by
  simp only [isPlain, Bool.and_eq_true, decide_eq_true_eq] at h
  exact toInputFrom_plain h.1.1 h.1.2 h.2

theorem toInputFrom_append {stack : List Bool} {text : Text} (h : text.all isPlain = true)
    (rest : Text) : toInputFrom stack (text ++ rest) = text ++ toInputFrom stack rest := by
  induction text with
  | nil => rfl
  | cons c text ih =>
    rw [List.all_cons, Bool.and_eq_true] at h
    rw [List.cons_append, toInputFrom_cons h.1, ih h.2, List.cons_append]

namespace Translates

variable {markup text : Text}

theorem plain (hne : text ≠ []) (h : text.all isPlain = true) : Translates text text where
  head := by
    obtain ⟨c, rest, rfl⟩ := List.exists_cons_of_ne_nil hne
    refine ⟨c, rest, rfl, ?_⟩
    rintro rfl
    exact absurd (List.all_eq_true.1 h _ List.mem_cons_self) (by decide)
  translated _ rest := toInputFrom_append h rest

theorem append {markup' text' : Text} (h : Translates markup text)
    (h' : Translates markup' text') : Translates (markup ++ markup') (text ++ text') where
  head := by
    obtain ⟨c, rest, rfl, hc⟩ := h.head
    exact ⟨c, rest ++ markup', rfl, hc⟩
  translated stack rest := by
    rw [List.append_assoc, h.translated, h'.translated, List.append_assoc]

theorem cons {c : Char} (hc : isPlain c = true) (h : Translates markup text) :
    Translates (c :: markup) (c :: text) :=
  (plain (List.cons_ne_nil c []) (by simp [hc])).append h

theorem parenthesizeIf (needed : Bool) (h : Translates markup text) :
    Translates (MathMarkup.parenthesizeIf needed markup)
      (MathMarkup.parenthesizeIf needed text) := by
  cases needed with
  | false => exact h
  | true => exact (h.append (plain (List.cons_ne_nil ')' []) rfl)).cons rfl

theorem call {word : Text} (hword : word.all Char.isAlpha = true)
    (hcdot : word ≠ "cdot".toList) (h : Translates markup text) :
    Translates ('\\' :: word ++ '\x7b' :: markup ++ ['\x7d']) (word ++ '(' :: text ++ [')']) where
  head := ⟨'\\', _, rfl, by decide⟩
  translated stack rest := by
    have hassoc : '\\' :: word ++ '\x7b' :: markup ++ ['\x7d'] ++ rest =
        '\\' :: (word ++ '\x7b' :: (markup ++ '\x7d' :: rest)) := by simp
    rw [hassoc, toInputFrom_word hword hcdot, h.translated, toInputFrom_close]
    simp

/-- The sign of an operation in front of what no letter begins. -/
theorem sign {c : Char} {rest : Text} (op : BinaryOp) (hc : c.isAlpha = false)
    (h : Translates (c :: rest) text) :
    Translates (op.markup ++ c :: rest) (op.symbol :: text) := by
  cases op with
  | add => exact h.cons rfl
  | sub => exact h.cons rfl
  | div => exact h.cons rfl
  | mul =>
    obtain ⟨d, after, hd, hopen⟩ := h.head
    cases hd
    refine ⟨⟨'\\', _, rfl, by decide⟩, fun stack more => ?_⟩
    have hend : ∀ d after, c :: (rest ++ more) = d :: after → d.isAlpha = false := by
      rintro d after ⟨⟩
      exact hc
    have hcdot := @toInputFrom_cdot stack _ hend
    rw [dropEmptyBraces_cons _ hopen] at hcdot
    exact hcdot.trans (congrArg ('*' :: ·) (h.translated stack more))

end Translates

end MathMarkup.Markup

namespace MathMarkup

/-- The blanks around an operation or an equality sign. -/
def Layout.gap : Layout → Text
  | .compact => []
  | .pretty => [' ']

/-- What stands between two operands is turned into the symbol of the operation. -/
theorem Markup.Translates.separator {markup text : Text} (op : BinaryOp) (layout : Layout)
    (h : Translates markup text) :
    Translates (op.separator layout markup ++ markup)
      (layout.gap ++ op.symbol :: (layout.gap ++ text)) := by
  obtain ⟨c, rest, rfl, -⟩ := h.head
  cases layout with
  | pretty =>
    have hblank : Translates (' ' :: c :: rest) (' ' :: text) := h.cons rfl
    have hsign := (hblank.sign op rfl).cons (c := ' ') rfl
    simpa [BinaryOp.separator, Layout.gap] using hsign
  | compact =>
    show Translates _ (op.symbol :: text)
    cases halpha : c.isAlpha with
    | false =>
      have hmarkup : op.separator .compact (c :: rest) = op.markup := by
        cases op <;> simp [BinaryOp.separator, BinaryOp.markup, halpha]
      rw [hmarkup]
      exact h.sign op halpha
    | true =>
      cases op with
      | add => exact h.cons rfl
      | sub => exact h.cons rfl
      | div => exact h.cons rfl
      | mul =>
        have hmarkup : BinaryOp.mul.separator .compact (c :: rest) =
            '\\' :: ("cdot".toList ++ ['\x7b', '\x7d']) := by
          simp [BinaryOp.separator, BinaryOp.markup, halpha]
        rw [hmarkup]
        refine ⟨⟨'\\', _, rfl, by decide⟩, fun stack more => ?_⟩
        have hcdot := @toInputFrom_cdot stack ('\x7b' :: '\x7d' :: (c :: rest ++ more))
          (by rintro d after ⟨⟩; rfl)
        exact hcdot.trans (congrArg ('*' :: ·) (h.translated stack more))

end MathMarkup
