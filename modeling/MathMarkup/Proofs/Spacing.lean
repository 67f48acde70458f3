import Mathlib
import MathMarkup.Proofs.Trim

/-!
# Blanks between lexemes

A lexeme is the longest one at its place. A blank behind it cuts off what follows, and then there is
less that could make it longer. So blanks between lexemes change no token, and as the readers look
at the tokens only, they change nothing but the columns of faults.
-/
namespace MathMarkup

open Lexeme

/-! ## Pieces with blanks between them -/

namespace Lexeme

/-- The second pieces are the first ones in the same order, with blanks between them. -/
inductive Loosens : List Piece → List Piece → Prop
  | nil : Loosens [] []
  | keep {pieces loose : List Piece} (piece : Piece) : Loosens pieces loose →
      Loosens (piece :: pieces) (piece :: loose)
  | insert {pieces loose : List Piece} {c : Char} : Text.isBlank c = true → Loosens pieces loose →
      Loosens pieces (.blank c :: loose)

/-- The second text is the first one, which is a single side, with blanks between its lexemes. -/
def Spaces (text other : Text) : Prop :=
  ∃ pieces loose, Divides pieces text [] ∧ Loosens pieces loose ∧ other = spelled loose

variable {pieces loose : List Piece}

theorem spelled_cons (piece : Piece) (pieces : List Piece) :
    spelled (piece :: pieces) = piece.text ++ spelled pieces := rfl

/-- No word begins a loosened text that did not begin the text before. -/
theorem Loosens.isPrefix {word : Text} (h : Loosens pieces loose)
    (hword : ∀ c ∈ word, Text.isBlank c = false) (hbegins : word <+: spelled loose) :
    word <+: spelled pieces := by
  induction h generalizing word with
  | nil => exact hbegins
  | @keep pieces loose piece _ ih =>
    rw [spelled_cons] at hbegins ⊢
    have hfirst := List.prefix_append piece.text (spelled loose)
    rcases List.prefix_or_prefix_of_prefix hbegins hfirst with hshort | ⟨more, rfl⟩
    · exact hshort.trans (List.prefix_append _ _)
    · rw [List.prefix_append_right_inj] at hbegins ⊢
      exact ih (fun c hc => hword c (List.mem_append_right _ hc)) hbegins
  | @insert pieces loose c hblank _ ih =>
    cases word with
    | nil => exact List.nil_prefix
    | cons d word =>
      obtain ⟨after, hafter⟩ := hbegins
      obtain rfl : d = c := (List.cons.inj hafter).1
      rw [hword d List.mem_cons_self] at hblank
      cases hblank

/-- A text is still cut at the ends of its lexemes when there are more blanks between them. -/
theorem Divides.loosen {text : Text} (h : Divides pieces text []) (hloose : Loosens pieces loose) :
    Divides loose (spelled loose) [] := by
  induction hloose generalizing text with
  | nil => exact .nil
  | @keep pieces loose piece hloose ih =>
    cases h with
    | blank hc hrest => exact .blank hc (ih hrest)
    | @lexeme c word token _ text _ hc hreads hrest =>
      have htext : text = spelled pieces := by simpa using hrest.eq_append
      refine .lexeme hc (hreads.of_heads (List.prefix_append _ _) ?_) (ih hrest)
      rw [htext]
      exact fun _ hword => (Loosens.keep (.lexeme (c :: word) token) hloose).isPrefix hword
  | insert hblank _ ih => exact .blank hblank (ih h)

theorem Loosens.tokens (h : Loosens pieces loose) :
    loose.filterMap Piece.token? = pieces.filterMap Piece.token? := by
  induction h with
  | nil => rfl
  | keep piece _ ih => rw [List.filterMap_cons, List.filterMap_cons, ih]
  | insert _ _ ih => exact ih

theorem Loosens.mem {c : Char} (h : Loosens pieces loose) (hc : c ∈ spelled loose) :
    c ∈ spelled pieces ∨ Text.isBlank c = true := by
  induction h with
  | nil => exact Or.inl hc
  | keep piece _ ih =>
    rw [spelled_cons, List.mem_append] at hc ⊢
    rcases hc with hc | hc
    · exact Or.inl (Or.inl hc)
    · exact (ih hc).imp_left Or.inr
  | insert hblank _ ih =>
    rcases List.mem_cons.1 hc with rfl | hc
    · exact Or.inr hblank
    · exact ih hc

theorem loosens_refl (pieces : List Piece) : Loosens pieces pieces := by
  induction pieces with
  | nil => exact .nil
  | cons piece pieces ih => exact .keep piece ih

/-! ## Sides -/

namespace Spaces

variable {text other : Text}

theorem sameTokens (h : Spaces text other) : Parse.SameTokens text other := by
  obtain ⟨pieces, loose, hpieces, hloose, rfl⟩ := h
  refine ⟨pieces.filterMap Piece.token?, Token.ofText_eq_ok_iff.2 ⟨pieces, hpieces, rfl⟩, ?_⟩
  exact Token.ofText_eq_ok_iff.2 ⟨loose, hpieces.loosen hloose, hloose.tokens.symm⟩

theorem not_mem (h : Spaces text other) (htext : '=' ∉ text) : '=' ∉ other := by
  obtain ⟨pieces, loose, hpieces, hloose, rfl⟩ := h
  have hspelled : text = spelled pieces := by simpa using hpieces.eq_append
  intro hmem
  rcases hloose.mem hmem with hmem | hblank
  · exact htext (hspelled ▸ hmem)
  · exact absurd hblank (by decide)

theorem of_ofText {ts : List Token} (h : Token.ofText text = .ok ts) : Spaces text text := by
  obtain ⟨pieces, hpieces, -⟩ := Token.ofText_eq_ok_iff.1 h
  exact ⟨pieces, pieces, hpieces, loosens_refl pieces, by simpa using hpieces.eq_append⟩

end Spaces

end Lexeme

/-! ## Equations -/

namespace Equation

/-- The second text is the first one with blanks between the lexemes of its sides: before them,
behind them, next to an equality sign, or among blanks that are there already. -/
def Spaces (text other : Text) : Prop :=
  ∃ parts, List.Forall₂ Lexeme.Spaces (text.split '=') parts ∧ other = Text.join ['='] parts

variable {text other : Text}

theorem not_mem_of_spaces {sides parts : List Text} (h : List.Forall₂ Lexeme.Spaces sides parts)
    (hsides : ∀ side ∈ sides, '=' ∉ side) : ∀ part ∈ parts, '=' ∉ part := by
  induction h with
  | nil => simp
  | @cons side part sides parts hfirst _ ih =>
    simp only [List.forall_mem_cons] at hsides ⊢
    exact ⟨hfirst.not_mem hsides.1, ih hsides.2⟩

theorem Spaces.sameTokens (h : Spaces text other) :
    List.Forall₂ Parse.SameTokens (text.split '=') (other.split '=') := by
  obtain ⟨parts, hparts, rfl⟩ := h
  have hne : parts ≠ [] := by
    rintro rfl
    exact Text.split_ne_nil '=' text (List.forall₂_nil_right_iff.1 hparts)
  have hsides := not_mem_of_spaces hparts fun _ => Text.not_mem_of_mem_split
  rw [Text.split_join hne hsides]
  exact hparts.imp fun _ _ => Lexeme.Spaces.sameTokens

/-- Blanks can be put between the lexemes of the texts whose sides all have tokens. -/
theorem spaces_self_iff :
    Spaces text text ↔ ∀ side ∈ text.split '=', ∃ ts, Token.ofText side = .ok ts := by
  constructor
  · intro h side hside
    obtain ⟨_, ts, hts, -⟩ := Parse.exists_of_forall₂ h.sameTokens side hside
    exact ⟨ts, hts⟩
  · intro h
    have hsides : List.Forall₂ Lexeme.Spaces (text.split '=') (text.split '=') := by
      refine List.forall₂_same.2 fun side hside => ?_
      obtain ⟨ts, hts⟩ := h side hside
      exact Spaces.of_ofText hts
    exact ⟨text.split '=', hsides, (Text.join_split '=' text).symm⟩

theorem Spaces.mapError_cause_parse (h : Spaces text other) :
    (parse text).mapError ParseError.cause = (parse other).mapError ParseError.cause := by
  have hsides := Parse.mapError_cause_sides h.sameTokens 0 0
  rw [parse_eq, parse_eq, Parse.mapError_map, Parse.mapError_map, hsides]

theorem Spaces.parse_eq_ok {equation : Equation} (h : Spaces text other)
    (htext : parse text = .ok equation) : parse other = .ok equation := by
  have hcause := h.mapError_cause_parse
  rw [htext] at hcause
  cases hother : parse other with
  | error e =>
    rw [hother] at hcause
    cases hcause
  | ok found =>
    rw [hother] at hcause
    cases hcause
    rfl

theorem Spaces.exists_parse_eq_error {e : ParseError} (h : Spaces text other)
    (htext : parse text = .error e) : ∃ e', parse other = .error e' ∧ e'.cause = e.cause := by
  have hcause := h.mapError_cause_parse
  rw [htext] at hcause
  cases hother : parse other with
  | error e' =>
    rw [hother] at hcause
    exact ⟨e', rfl, (Except.error.inj hcause).symm⟩
  | ok found =>
    rw [hother] at hcause
    cases hcause

/-- Blanks between lexemes are insignificant. They can be put into the texts whose sides all have
tokens. The sides keep these tokens, the text stays the same equation and has the same markup, and
if it was none then it still is none for the same cause. -/
theorem blanks_insignificant (layout : Layout) (text : Text) :
    (Spaces text text ↔ ∀ side ∈ text.split '=', ∃ ts, Token.ofText side = .ok ts) ∧
    ∀ other, Spaces text other →
      List.Forall₂ Parse.SameTokens (text.split '=') (other.split '=') ∧
      (∀ equation, parse text = .ok equation → parse other = .ok equation ∧
        renderText layout other = renderText layout text) ∧
      (∀ e, parse text = .error e → ∃ e', parse other = .error e' ∧ e'.cause = e.cause ∧
        renderText layout other = .error (.parse e')) := by
  refine ⟨spaces_self_iff, fun other h => ⟨h.sameTokens, fun equation htext => ?_,
    fun e htext => ?_⟩⟩
  · have hother := h.parse_eq_ok htext
    exact ⟨hother, renderText_congr layout (hother.trans htext.symm)⟩
  · obtain ⟨e', hother, hcause⟩ := h.exists_parse_eq_error htext
    exact ⟨e', hother, hcause, renderText_of_parse_error hother⟩

/-- A name behind a number stays what it is, and so does a sign behind an equality sign. -/
theorem blanks_insignificant_name :
    let sum := "0e+x".toList
    let wideSum := "0\u00a0e + x".toList
    let chain := "a=-b".toList
    let wideChain := " a\u2003= -\tb".toList
    let e : ParseError := ⟨.unexpected (.ident ['e']), some 2⟩
    let equation : Equation := ⟨[.ident ['a'], .neg (.ident ['b'])]⟩
    (Spaces sum wideSum ∧ parse sum = .error e ∧
      ∃ e', parse wideSum = .error e' ∧ e'.cause = e.cause) ∧
    Spaces chain wideChain ∧ parse chain = .ok equation ∧ parse wideChain = .ok equation := by
  intro sum wideSum chain wideChain e equation
  have hsum : Spaces sum wideSum := by
    have hzero : Token.scan '0' "e+x".toList = .ok (.number .zero, "e+x".toList) := by cbv
    have he : Token.scan 'e' "+x".toList = .ok (.ident ['e'], "+x".toList) := by cbv
    have hplus : Token.scan '+' ['x'] = .ok (.operator .add, ['x']) := by cbv
    have hx : Token.scan 'x' [] = .ok (.ident ['x'], []) := by cbv
    have hpieces := (((Divides.nil.cons_of_scan [] rfl hx).cons_of_scan [] rfl hplus).cons_of_scan
      [] rfl he).cons_of_scan [] rfl hzero
    exact ⟨[wideSum], .cons ⟨_, _, hpieces, .keep _ (.insert rfl (.keep _ (.insert rfl (.keep _
      (.insert rfl (.keep _ .nil)))))), rfl⟩ .nil, rfl⟩
  have hchain : Spaces chain wideChain := by
    have ha : Token.scan 'a' [] = .ok (.ident ['a'], []) := by cbv
    have hminus : Token.scan '-' ['b'] = .ok (.operator .sub, ['b']) := by cbv
    have hb : Token.scan 'b' [] = .ok (.ident ['b'], []) := by cbv
    have hleft := Divides.nil.cons_of_scan [] rfl ha
    have hright := (Divides.nil.cons_of_scan [] rfl hb).cons_of_scan [] rfl hminus
    exact ⟨[" a\u2003".toList, " -\tb".toList],
      .cons ⟨_, _, hleft, .insert rfl (.keep _ (.insert rfl .nil)), rfl⟩
        (.cons ⟨_, _, hright, .insert rfl (.keep _ (.insert rfl (.keep _ .nil))), rfl⟩ .nil), rfl⟩
  have hfails : parse sum = .error e := by
    dsimp only [sum, e]
    cbv
  have hparses : parse chain = .ok equation := by
    dsimp only [chain, equation]
    cbv
  obtain ⟨-, -, herror⟩ := (blanks_insignificant .pretty sum).2 wideSum hsum
  obtain ⟨e', hfails', hcause, -⟩ := herror e hfails
  obtain ⟨-, hok, -⟩ := (blanks_insignificant .pretty chain).2 wideChain hchain
  exact ⟨⟨hsum, hfails, e', hfails', hcause⟩, hchain, hparses, (hok equation hparses).1⟩

end Equation

end MathMarkup
