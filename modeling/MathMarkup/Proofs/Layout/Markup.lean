import Mathlib
import MathMarkup.Proofs.Conversion
import MathMarkup.Proofs.Layout.Ink
import MathMarkup.Proofs.Render.Tokens

/-!
# Both layouts write the same ink

Parentheses, operations and numbers are the same in both layouts, so that a value either has markup
with the same ink in both or meets the same error in both.
-/
namespace MathMarkup

open Markup

/-! ## Numbers and names -/

theorem isInk_of_isNamePart {c : Char} (h : isNamePart c = true) :
    Text.isBlank c = false ∧ c ≠ '\x7b' ∧ c ≠ '\x7d' := by
  refine ⟨(isBlank_of_isNamePart h).1, ?_, ?_⟩ <;> rintro rfl <;> exact absurd h (by decide)

theorem Decimal.sameInk_toText (d : Decimal) :
    SameInk d.toText d.toText ∧ BeginsInk d.toText := by
  have hink : ∀ c ∈ d.toText, Text.isBlank c = false ∧ c ≠ '\x7b' ∧ c ≠ '\x7d' := by
    intro c hc
    rcases isDigit_or_point c hc with hdigit | rfl
    · exact isInk_of_isNamePart (isNamePart_of_isDigit hdigit)
    · decide
  refine ⟨.plain fun c hc => ⟨(hink c hc).1, (hink c hc).2.1⟩, ?_⟩
  obtain ⟨c, rest, hcons, -⟩ := d.exists_digit_cons
  exact ⟨c, rest, hcons, (hink c (hcons ▸ List.mem_cons_self)).2.2⟩

/-- The text of a finite number is the same ink in both layouts. -/
theorem Binary64.exists_sameInk {v : Binary64} (h : v.isFinite = true) :
    ∃ text, v.render = .ok text ∧ SameInk text text ∧ BeginsInk text := by
  refine ⟨_, render_of_isFinite h, ?_⟩
  obtain ⟨hink, hbegins⟩ := (shortest v.code).sameInk_toText
  rw [toText_of_isFinite h]
  cases v.isZero with
  | true => exact ⟨.single (by decide) (by decide), '0', [], rfl, by decide⟩
  | false =>
    cases v.negative with
    | false => exact ⟨hink, hbegins⟩
    | true => exact ⟨hink.cons (by decide) (by decide), '-', _, rfl, by decide⟩

/-! ## Expressions -/

namespace Markup

theorem SameInk.ident {name : Text} (h : isName name = true) :
    SameInk name name ∧ BeginsInk name := by
  have hink : ∀ c ∈ name, Text.isBlank c = false ∧ c ≠ '\x7b' ∧ c ≠ '\x7d' := fun c hc =>
    isInk_of_isNamePart (isNamePart_of_isName h c hc)
  refine ⟨.plain fun c hc => ⟨(hink c hc).1, (hink c hc).2.1⟩, ?_⟩
  obtain ⟨c, rest, rfl⟩ := List.exists_cons_of_ne_nil (Expr.ne_nil_of_isName h)
  exact ⟨c, rest, rfl, (hink c List.mem_cons_self).2.2⟩

variable {compact pretty : Text}

theorem SameInk.markup (op : BinaryOp) : SameInk op.markup op.markup := by
  refine .plain fun c hc => ?_
  have hink : op.markup.all (fun c => !Text.isBlank c && c ≠ '\x7b') = true := by
    cases op <;> decide
  have hchar := List.all_eq_true.1 hink c hc
  simpa using hchar

/-- An operation in front of its right operand. -/
theorem SameInk.separator (op : BinaryOp) (h : SameInk compact pretty) :
    SameInk (op.separator .compact compact ++ compact)
      (op.separator .pretty pretty ++ pretty) := by
  have hpretty : op.separator .pretty pretty ++ pretty =
      [' '] ++ (op.markup ++ ([' '] ++ pretty)) := by simp [BinaryOp.separator]
  have hspace : SameInk [] [' '] := .spacing (Or.inl rfl)
  have hplain : SameInk (op.markup ++ compact) ([' '] ++ (op.markup ++ ([' '] ++ pretty))) :=
    hspace.append ((markup op).append (hspace.append h))
  have hbraces : SameInk (op.markup ++ (['\x7b', '\x7d'] ++ compact))
      ([' '] ++ (op.markup ++ ([' '] ++ pretty))) :=
    hspace.append ((markup op).append (hspace.append (emptyBraces.append h)))
  rw [hpretty]
  unfold BinaryOp.separator
  dsimp only
  split
  · split
    · simpa using hbraces
    · exact hplain
  · exact hplain

theorem SameInk.call {name : Text} (hname : isName name = true) (hbegins : BeginsInk compact)
    (h : SameInk compact pretty) :
    SameInk ('\\' :: name ++ '\x7b' :: compact ++ ['\x7d'])
      ('\\' :: name ++ '\x7b' :: pretty ++ ['\x7d']) := by
  have hword : SameInk ('\\' :: name) ('\\' :: name) := (ident hname).1.cons (by decide) (by decide)
  exact (hword.append (h.open_cons hbegins)).append (single (by decide) (by decide))

end Markup

/-- The markup of an expression in both layouts. -/
theorem Expr.exists_sameInk {x : Expr} (h : x.isWellFormed = true) :
    ∃ compact pretty, x.render .compact = .ok compact ∧ x.render .pretty = .ok pretty ∧
      SameInk compact pretty ∧ BeginsInk compact := by
  induction x with
  | number v =>
    rw [isWellFormed_number] at h
    obtain ⟨text, hrender, hink, hbegins⟩ := Binary64.exists_sameInk h
    exact ⟨text, text, hrender, hrender, hink, hbegins⟩
  | ident name =>
    rw [isWellFormed_ident] at h
    obtain ⟨hink, hbegins⟩ := SameInk.ident h
    exact ⟨name, name, render_ident_of_isName h, render_ident_of_isName h, hink, hbegins⟩
  | neg x ih =>
    obtain ⟨compact, pretty, hcompact, hpretty, hink, -⟩ := ih (isWellFormed_neg.1 h)
    exact ⟨_, _, render_neg_of_ok hcompact, render_neg_of_ok hpretty,
      (hink.parenthesizeIf _).cons (by decide) (by decide), '-', _, rfl, by decide⟩
  | binary op x y ihx ihy =>
    obtain ⟨hx, hy⟩ := isWellFormed_binary.1 h
    obtain ⟨left, left', hleft, hleft', hinkx, hbegins⟩ := ihx hx
    obtain ⟨right, right', hright, hright', hinky, -⟩ := ihy hy
    refine ⟨_, _, render_binary_of_ok hleft hright, render_binary_of_ok hleft' hright', ?_, ?_⟩
    · rw [BinaryOp.render, BinaryOp.render, List.append_assoc, List.append_assoc]
      exact (hinkx.parenthesizeIf _).append ((hinky.parenthesizeIf _).separator op)
    · rw [BinaryOp.render, List.append_assoc]
      exact (hbegins.parenthesizeIf _).append _
  | call name arguments ih =>
    obtain ⟨f, x, rfl, rfl, hx⟩ := isWellFormed_call.1 h
    obtain ⟨compact, pretty, hcompact, hpretty, hink, hbegins⟩ :=
      ih x (List.mem_singleton_self x) hx
    have hname : isName f.name = true := by cases f <;> decide
    have hne := ne_nil_of_isName hname
    exact ⟨_, _, render_call_of_ok hne hcompact, render_call_of_ok hne hpretty,
      hink.call hname hbegins, '\\', _, rfl, by decide⟩

theorem Expr.exists_sameInkAll {xs : List Expr} (h : ∀ x ∈ xs, x.isWellFormed = true) :
    ∃ compacts prettys, renderAll .compact xs = .ok compacts ∧ renderAll .pretty xs = .ok prettys ∧
      List.Forall₂ SameInk compacts prettys := by
  induction xs with
  | nil => exact ⟨[], [], rfl, rfl, .nil⟩
  | cons x xs ih =>
    obtain ⟨compact, pretty, hcompact, hpretty, hink, -⟩ := exists_sameInk (h x List.mem_cons_self)
    obtain ⟨compacts, prettys, hcompacts, hprettys, hinks⟩ :=
      ih fun y hy => h y (List.mem_cons_of_mem x hy)
    exact ⟨compact :: compacts, pretty :: prettys, by simp only [renderAll, hcompact, hcompacts],
      by simp only [renderAll, hpretty, hprettys], .cons hink hinks⟩

theorem Equation.exists_sameInk {equation : Equation} (hne : equation.sides ≠ [])
    (h : ∀ x ∈ equation.sides, x.isWellFormed = true) :
    ∃ compact pretty, equation.render .compact = .ok compact ∧
      equation.render .pretty = .ok pretty ∧ SameInk compact pretty := by
  obtain ⟨compacts, prettys, hcompacts, hprettys, hinks⟩ := Expr.exists_sameInkAll h
  have hspace : SameInk [] [' '] := .spacing (Or.inl rfl)
  have hequals : SameInk ['='] ['='] := .single (by decide) (by decide)
  have hseparator : SameInk (separator .compact) (separator .pretty) :=
    (hspace.append hequals).append hspace
  exact ⟨_, _, render_of_ok hne hcompacts, render_of_ok hne hprettys, .join hseparator hinks⟩

/-! ## Containers -/

namespace Container

theorem cell_sameInk {v : Binary64} {text : Text} (h : cell v = .ok text) : SameInk text text := by
  unfold cell at h
  split at h
  · next hv =>
    obtain ⟨text', hrender, hink, -⟩ := Binary64.exists_sameInk hv
    rw [hrender] at h
    cases h
    exact hink
  · cases h

theorem row_sameInk {values : List Binary64} {texts : List Text} (h : row values = .ok texts) :
    ∀ text ∈ texts, SameInk text text := by
  induction values generalizing texts with
  | nil =>
    cases h
    simp
  | cons v vs ih =>
    unfold row at h
    split at h
    · cases h
    · next first hfirst =>
      split at h
      · cases h
      · next others hothers =>
        cases h
        intro text htext
        rcases List.mem_cons.1 htext with rfl | htext
        · exact cell_sameInk hfirst
        · exact ih hothers text htext

theorem cells_sameInk {rows : List (List Binary64)} {textss : List (List Text)}
    (h : cells rows = .ok textss) : ∀ texts ∈ textss, ∀ text ∈ texts, SameInk text text := by
  induction rows generalizing textss with
  | nil =>
    cases h
    simp
  | cons values rows ih =>
    unfold cells at h
    split at h
    · cases h
    · next first hfirst =>
      split at h
      · cases h
      · next others hothers =>
        cases h
        intro texts htexts
        rcases List.mem_cons.1 htexts with rfl | htexts
        · exact row_sameInk hfirst
        · exact ih hothers texts htexts

theorem rowText_sameInk {texts : List Text} (h : ∀ text ∈ texts, SameInk text text) :
    SameInk (rowText .compact texts) (rowText .pretty texts) := by
  have hspace : SameInk [] [' '] := .spacing (Or.inl rfl)
  have hline : SameInk [] ['\n'] := .spacing (Or.inr rfl)
  have hampersand : SameInk ['&'] ['&'] := .single (by decide) (by decide)
  have hseparator : SameInk "&".toList " & ".toList := (hspace.append hampersand).append hspace
  have hcells : SameInk (Text.join "&".toList texts) (Text.join " & ".toList texts) :=
    .join hseparator (List.forall₂_same.2 h)
  have hrow := (hline.append hcells).append hspace
  simpa [rowText] using hrow

theorem body_sameInk {rows : List (List Text)}
    (h : ∀ texts ∈ rows, ∀ text ∈ texts, SameInk text text) :
    SameInk (body .compact rows) (body .pretty rows) := by
  have hbackslash : SameInk ['\\'] ['\\'] := .single (by decide) (by decide)
  have hseparator : SameInk "\\\\".toList "\\\\".toList := hbackslash.append hbackslash
  have hrows : List.Forall₂ SameInk (rows.map (rowText .compact)) (rows.map (rowText .pretty)) := by
    rw [List.forall₂_map_left_iff, List.forall₂_map_right_iff, List.forall₂_same]
    exact fun texts htexts => rowText_sameInk (h texts htexts)
  exact (SameInk.join hseparator hrows).append (.spacing (Or.inr rfl))

theorem environment_sameInk (kind : ContainerKind) {rows : List (List Text)}
    (h : ∀ texts ∈ rows, ∀ text ∈ texts, SameInk text text) :
    SameInk (environment kind.environment .compact rows)
      (environment kind.environment .pretty rows) := by
  have hname : isName kind.environment = true := by cases kind <;> decide
  have hbegin : isName "begin".toList = true := by decide
  have hend : isName "end".toList = true := by decide
  obtain ⟨hink, hbegins⟩ := SameInk.ident hname
  have henvironment := ((hink.call hbegin hbegins).append (body_sameInk h)).append
    (hink.call hend hbegins)
  unfold environment
  simpa using henvironment

theorem render_sameInk (kind : ContainerKind) (rows : List (List Binary64)) :
    (∃ compact pretty, render kind .compact rows = .ok compact ∧
      render kind .pretty rows = .ok pretty ∧ SameInk compact pretty) ∨
    ∃ e, render kind .compact rows = .error e ∧ render kind .pretty rows = .error e := by
  unfold render
  split
  · exact Or.inr ⟨_, rfl, rfl⟩
  · exact Or.inr ⟨_, rfl, rfl⟩
  · cases hcells : cells rows with
    | error e => exact Or.inr ⟨e, rfl, rfl⟩
    | ok texts =>
      exact Or.inl ⟨_, _, rfl, rfl, environment_sameInk kind (cells_sameInk hcells)⟩

end Container

/-! ## Values -/

theorem renderText_sameInk (text : Text) :
    (∃ compact pretty, renderText .compact text = .ok compact ∧
      renderText .pretty text = .ok pretty ∧ SameInk compact pretty) ∨
    ∃ e, renderText .compact text = .error e ∧ renderText .pretty text = .error e := by
  unfold renderText
  cases hparse : Equation.parse text with
  | error e => exact Or.inr ⟨.parse e, rfl, rfl⟩
  | ok equation =>
    obtain ⟨hne, hreadable⟩ := Equation.isReadable_of_parse hparse
    dsimp only
    cases hfold : equation.fold with
    | error e => exact Or.inr ⟨.evaluation e, rfl, rfl⟩
    | ok folded =>
      obtain ⟨hlength, hwell⟩ := Equation.isWellFormed_of_fold hfold hreadable
      have hfolded : folded.sides ≠ [] := by
        intro hnil
        rw [hnil] at hlength
        exact hne (List.length_eq_zero_iff.1 hlength.symm)
      obtain ⟨compact, pretty, hcompact, hpretty, hink⟩ := Equation.exists_sameInk hfolded hwell
      refine Or.inl ⟨compact, pretty, ?_, ?_, hink⟩
      · simp only [hcompact]
      · simp only [hpretty]

theorem Value.exists_sameInk (value : Value) :
    (∃ compact pretty, value.render .compact = .ok compact ∧
      value.render .pretty = .ok pretty ∧ SameInk compact pretty) ∨
    ∃ e, value.render .compact = .error e ∧ value.render .pretty = .error e := by
  cases value with
  | scalar text => exact renderText_sameInk text
  | vector values => exact Container.render_sameInk .vector _
  | matrix rows => exact Container.render_sameInk .matrix rows

/-- The layout decides about spacing only: both layouts fail alike, or the compact markup has no
blanks, the pretty one has spaces and line breaks only, and without those it is the compact one
without its empty braces. -/
theorem Value.render_layouts (value : Value) :
    (∃ compact pretty, value.render .compact = .ok compact ∧
      value.render .pretty = .ok pretty ∧
      (∀ c ∈ compact, Text.isBlank c = false) ∧
      (∀ c ∈ pretty, Text.isBlank c = true → c = ' ' ∨ c = '\n') ∧
      withoutSpacing pretty = withoutEmptyBraces compact) ∨
    ∃ e, value.render .compact = .error e ∧ value.render .pretty = .error e := by
  rcases exists_sameInk value with ⟨compact, pretty, hcompact, hpretty, hink⟩ | herror
  · exact Or.inl ⟨compact, pretty, hcompact, hpretty, hink.solid, hink.spaced, hink.ink_eq⟩
  · exact Or.inr herror

/-- The compact layout ends a word by braces where a letter follows. -/
example : renderText .compact "a*b".toList = .ok "a\\cdot\x7b\x7db".toList ∧
    renderText .pretty "a*b".toList = .ok "a \\cdot b".toList := by
  constructor <;> cbv

end MathMarkup
