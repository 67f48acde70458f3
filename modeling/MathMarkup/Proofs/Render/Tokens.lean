import Mathlib
import MathMarkup.Proofs.Render.Reread
import MathMarkup.Proofs.Scan.Spelling

/-!
# The tokens of rendered markup

Rendered markup is turned into a text that is scanned as the tokens of the expression, which are
the same in both layouts.
-/
namespace MathMarkup

open Markup

def wrapIf (needed : Bool) (ts : List Token) : List Token :=
  if needed then .opening :: ts ++ [.closing] else ts

/-- A number below zero is written as a sign and a magnitude. -/
def Binary64.tokens (v : Binary64) : List Token :=
  if v.isZero then [.number .zero]
  else if v.negative then [.operator .sub, .number v.neg]
  else [.number v]

mutual

/-- The tokens that an expression is written with. -/
def Expr.tokens : Expr → List Token
  | number v => v.tokens
  | ident name => [.ident name]
  | neg x => .operator .sub :: wrapIf (x.precedence ≤ negationPrecedence) x.tokens
  | binary op x y =>
    wrapIf (op.wrapsLeft x) x.tokens ++ .operator op :: wrapIf (op.wrapsRight y) y.tokens
  | call name arguments => .ident name :: .opening :: tokensAll arguments ++ [.closing]

def Expr.tokensAll : List Expr → List Token
  | [] => []
  | x :: xs => x.tokens ++ tokensAll xs

end

/-! ## Texts -/

theorem isPlain_of_isNamePart {c : Char} (h : isNamePart c = true) : isPlain c = true := by
  simp only [isPlain, Bool.and_eq_true, decide_eq_true_eq]
  refine ⟨⟨?_, ?_⟩, ?_⟩ <;> rintro rfl <;> exact absurd h (by decide)

theorem Spells.closing : Spells [')'] [.closing] := Spells.nil.symbol_cons rfl

theorem Spells.parenthesizeIf {text : Text} {ts : List Token} (needed : Bool)
    (h : Spells text ts) :
    Spells (MathMarkup.parenthesizeIf needed text) (wrapIf needed ts) := by
  cases needed with
  | false => exact h
  | true =>
    exact (h.append .closing (List.cons_ne_nil ')' [])
      (endsLexeme_cons rfl (by decide) (by decide) [])).symbol_cons rfl

theorem Spells.binary {left right : Text} {ts us : List Token} (op : BinaryOp) (layout : Layout)
    (hleft : Spells left ts) (hright : Spells right us) :
    Spells (left ++ (layout.gap ++ op.symbol :: (layout.gap ++ right)))
      (ts ++ .operator op :: us) := by
  have hsymbol : Token.ofSymbol? op.symbol = some (.operator op) := by cases op <;> rfl
  cases layout with
  | compact =>
    refine hleft.append (hright.symbol_cons hsymbol) (List.cons_ne_nil _ _)
      (endsLexeme_cons ?_ ?_ ?_ right) <;> cases op <;> decide
  | pretty =>
    exact hleft.append ((Spells.blank_cons rfl hright).symbol_cons hsymbol |>.blank_cons rfl)
      (List.cons_ne_nil ' ' _) (endsLexeme_cons rfl (by decide) (by decide) _)

theorem Spells.call {name text : Text} {ts : List Token} (hname : isName name = true)
    (h : Spells text ts) :
    Spells (name ++ '(' :: text ++ [')']) (.ident name :: .opening :: ts ++ [.closing]) := by
  have hgroup := Spells.parenthesizeIf true h
  have hcall := (Spells.ident hname).append hgroup (List.cons_ne_nil '(' _)
    (endsLexeme_cons rfl (by decide) (by decide) _)
  simpa [MathMarkup.parenthesizeIf, wrapIf] using hcall

/-! ## Numbers -/

theorem Decimal.translates_toText (d : Decimal) : Translates d.toText d.toText := by
  obtain ⟨c, rest, hcons, -⟩ := d.exists_digit_cons
  refine .plain (hcons ▸ List.cons_ne_nil c rest) (List.all_eq_true.2 fun c hc => ?_)
  rcases isDigit_or_point c hc with hc | rfl
  · exact isPlain_of_isNamePart (isNamePart_of_isDigit hc)
  · rfl

/-- The markup of a finite number is its text. -/
theorem Binary64.exists_spells {v : Binary64} (h : v.isFinite = true) :
    ∃ text, v.render = .ok text ∧ Translates text text ∧ Spells text v.tokens := by
  refine ⟨_, render_of_isFinite h, ?_⟩
  rw [toText_of_isFinite h, tokens]
  cases v.isZero with
  | true =>
    have hzero : Spells ['0'] [.number zero] := @Spells.number zero rfl (by decide)
    exact ⟨.plain (List.cons_ne_nil '0' []) rfl, hzero⟩
  | false =>
    have htext := (shortest v.code).translates_toText
    cases hsign : v.negative with
    | false => exact ⟨htext, Spells.number hsign h⟩
    | true =>
      have hmagnitude : Spells (shortest v.neg.code).toText [.number v.neg] :=
        Spells.number (by simp [neg, hsign]) h
      exact ⟨htext.cons rfl, hmagnitude.symbol_cons rfl⟩

/-! ## Expressions -/

theorem Expr.exists_spells (layout : Layout) {x : Expr} (h : x.isWellFormed = true) :
    ∃ markup text, x.render layout = .ok markup ∧ Translates markup text ∧
      Spells text x.tokens := by
  induction x with
  | number v =>
    rw [isWellFormed_number] at h
    obtain ⟨text, hrender, htext, hspells⟩ := Binary64.exists_spells h
    exact ⟨text, text, hrender, htext, hspells⟩
  | ident name =>
    rw [isWellFormed_ident] at h
    have hplain : name.all isPlain = true := List.all_eq_true.2 fun c hc =>
      isPlain_of_isNamePart (isNamePart_of_isName h c hc)
    exact ⟨name, name, render_ident_of_isName h, .plain (ne_nil_of_isName h) hplain, .ident h⟩
  | neg x ih =>
    obtain ⟨markup, text, hrender, htext, hspells⟩ := ih (isWellFormed_neg.1 h)
    exact ⟨_, _, render_neg_of_ok hrender, (htext.parenthesizeIf _).cons rfl,
      (hspells.parenthesizeIf _).symbol_cons rfl⟩
  | binary op x y ihx ihy =>
    obtain ⟨hx, hy⟩ := isWellFormed_binary.1 h
    obtain ⟨left, left', hleft, hleft', hxs⟩ := ihx hx
    obtain ⟨right, right', hright, hright', hys⟩ := ihy hy
    refine ⟨_, _, render_binary_of_ok hleft hright, ?_,
      (hxs.parenthesizeIf _).binary op layout (hys.parenthesizeIf _)⟩
    rw [BinaryOp.render, List.append_assoc]
    exact (hleft'.parenthesizeIf _).append ((hright'.parenthesizeIf _).separator op layout)
  | call name arguments ih =>
    obtain ⟨f, x, rfl, rfl, hx⟩ := isWellFormed_call.1 h
    obtain ⟨markup, text, hrender, htext, hspells⟩ := ih x (List.mem_singleton_self x) hx
    have hname : isName f.name = true := by cases f <;> decide
    have hword : f.name.all Char.isAlpha = true := by cases f <;> decide
    have hcdot : f.name ≠ "cdot".toList := by cases f <;> decide
    refine ⟨_, _, render_call_of_ok (ne_nil_of_isName hname) hrender, htext.call hword hcdot, ?_⟩
    simpa [tokens, tokensAll] using hspells.call hname

end MathMarkup
