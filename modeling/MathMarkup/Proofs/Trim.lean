import Mathlib
import MathMarkup.Proofs.Chain
import MathMarkup.Proofs.Parse.Diagnosis
import MathMarkup.Proofs.Scan.Blanks

/-!
# Trimming an expression

A text without the blanks at its ends is read, folded and rendered as before. Only the columns of
parse errors change: they count from the first character that is left. A blank first side has its
error at the first column in any case.
-/
namespace MathMarkup

/-! ## Blanks at the ends of a text -/

namespace Text

theorem takeWhile_append_trimLeft (text : Text) : text.takeWhile isBlank ++ text.trimLeft = text :=
  List.takeWhile_append_dropWhile

theorem isBlank_of_trimLeft {text rest : Text} {c : Char} (h : text.trimLeft = c :: rest) :
    isBlank c = false := by
  have hhead := List.head?_dropWhile_not isBlank text
  rw [trimLeft] at h
  rw [h] at hhead
  simpa using hhead

theorem exists_trimRight (text : Text) :
    ∃ blanks : Text, blanks.AllBlank ∧ text = text.trimRight ++ blanks := by
  refine ⟨(text.reverse.takeWhile isBlank).reverse, fun c hc => ?_, ?_⟩
  · exact List.mem_takeWhile_imp (List.mem_reverse.1 hc)
  · rw [trimRight, ← List.reverse_append, List.takeWhile_append_dropWhile, List.reverse_reverse]

theorem dropWhile_isBlank_append {text : Text} (hne : text ≠ [])
    (h : ∀ c ∈ text, isBlank c = false) (rest : Text) :
    (text ++ rest).dropWhile isBlank = text ++ rest := by
  obtain ⟨c, text, rfl⟩ := List.exists_cons_of_ne_nil hne
  rw [List.cons_append, List.dropWhile_cons_of_neg (by simp [h c List.mem_cons_self])]

/-- A text without blanks is what trimming leaves of it when blanks are put around it. -/
theorem trim_surrounded {before text after : Text} (hbefore : before.AllBlank)
    (hafter : after.AllBlank) (hne : text ≠ []) (h : ∀ c ∈ text, isBlank c = false) :
    trim (before ++ text ++ after) = text := by
  have hleft : trimLeft (before ++ text ++ after) = text ++ after := by
    rw [trimLeft, List.append_assoc, List.dropWhile_append_of_pos hbefore,
      dropWhile_isBlank_append hne h]
  have hreverse : text.reverse.dropWhile isBlank = text.reverse := by
    have hdrop := dropWhile_isBlank_append (List.reverse_ne_nil_iff.2 hne)
      (fun c hc => h c (List.mem_reverse.1 hc)) []
    rwa [List.append_nil] at hdrop
  have hright : (text ++ after).reverse.dropWhile isBlank = text.reverse := by
    rw [List.reverse_append,
      List.dropWhile_append_of_pos fun c hc => hafter c (List.mem_reverse.1 hc), hreverse]
  rw [trim, hleft, trimRight, hright, List.reverse_reverse]

/-- How far trimming moves what is read of a text: by the blanks in front of it, unless they are all
that there is of the first side. -/
def indent (text : Text) : Nat :=
  match text.trimLeft with
  | [] => 0
  | c :: _ => if c = '=' then 0 else (text.takeWhile isBlank).length

end Text

theorem ParseError.shift_zero (e : ParseError) : e.shift 0 = e := by
  simp [shift]

theorem ParseError.shift_add (j k : Nat) (e : ParseError) :
    e.shift (j + k) = (e.shift k).shift j := by
  simp only [shift, Option.map_map]
  congr 2
  funext column
  simp only [Function.comp_apply]
  omega

/-! ## Sides -/

namespace Parse

variable {blanks : Text}

theorem side_append_blanks (base : Nat) (text : Text) (hblanks : blanks.AllBlank) :
    side base (text ++ blanks) = side base text := by
  have htokens : tokenize base (text ++ blanks) = tokenize base text :=
    scanFrom_append_blanks (base + 1) text hblanks
  unfold side
  rw [htokens]
  cases tokenize base text with
  | error e => rfl
  | ok tokens =>
    cases tokens with
    | nil => rfl
    | cons t tokens => exact ofTokens_endColumn _ _ (List.cons_ne_nil t tokens)

theorem side_blanks_append (base : Nat) (hblanks : blanks.AllBlank) {c : Char}
    (hc : Text.isBlank c = false) (rest : Text) :
    side base (blanks ++ c :: rest) = side (base + blanks.length) (c :: rest) := by
  have htokens : tokenize base (blanks ++ c :: rest) =
      tokenize (base + blanks.length) (c :: rest) := by
    unfold tokenize
    rw [scanFrom_blanks_append _ hblanks, Nat.add_right_comm]
  have hend : base + (blanks ++ c :: rest).length + 1 =
      base + blanks.length + (c :: rest).length + 1 := by
    rw [List.length_append, ← Nat.add_assoc]
  have hne := scanFrom_ne_nil hc (base + blanks.length + 1) rest
  unfold side
  rw [htokens, hend]
  unfold tokenize
  cases hscan : scanFrom (base + blanks.length + 1) (c :: rest) with
  | error e => rfl
  | ok tokens =>
    cases tokens with
    | nil => exact absurd hscan hne
    | cons t tokens => rfl

theorem side_of_blanks (base : Nat) (hblanks : blanks.AllBlank) :
    side base blanks = .error ⟨.emptySide, some (base + 1)⟩ := by
  have htokens : tokenize base blanks = .ok [] := by
    rw [tokenize, ← List.nil_append blanks, scanFrom_append_blanks _ _ hblanks, scanFrom_nil]
  rw [side, htokens]
  rfl

end Parse

/-! ## Equations -/

namespace Equation

variable {text blanks : Text}

theorem parse_of_not_mem (h : '=' ∉ text) :
    parse text = (Parse.side 0 text).map fun x => ⟨[x]⟩ := by
  rw [parse_eq, Text.split_of_not_mem h, Parse.sides]
  cases Parse.side 0 text <;> rfl

theorem not_mem_of_blanks (hblanks : blanks.AllBlank) : '=' ∉ blanks :=
  fun h => absurd (hblanks '=' h) (by decide)

/-- Blanks behind the last side are not read. -/
theorem parse_append_blanks (text : Text) (hblanks : blanks.AllBlank) :
    parse (text ++ blanks) = parse text := by
  induction hlength : text.length using Nat.strong_induction_on generalizing text with
  | _ n ih =>
    by_cases hmem : '=' ∈ text
    · obtain ⟨a, b, rfl, -⟩ := List.eq_append_cons_of_mem hmem
      have hb : b.length < n := by
        rw [← hlength, List.length_append, List.length_cons]
        omega
      rw [List.append_assoc, List.cons_append, parse_append, parse_append, ih _ hb b rfl]
    · have hwhole : '=' ∉ text ++ blanks := by simp [hmem, not_mem_of_blanks hblanks]
      rw [parse_of_not_mem hwhole, parse_of_not_mem hmem, Parse.side_append_blanks _ _ hblanks]

/-- A blank first side is an error of the first column. -/
theorem parse_blanks (hblanks : blanks.AllBlank) :
    parse blanks = .error ⟨.emptySide, some 1⟩ := by
  rw [parse_of_not_mem (not_mem_of_blanks hblanks), Parse.side_of_blanks 0 hblanks]
  rfl

/-- Blanks in front of a first side move the columns of all sides. -/
theorem parse_blanks_append (hblanks : blanks.AllBlank) {c : Char} (hc : Text.isBlank c = false)
    (hequal : c ≠ '=') (rest : Text) : parse (blanks ++ c :: rest) =
      (parse (c :: rest)).mapError (ParseError.shift blanks.length) := by
  have hfirst {first : Text} (h : '=' ∉ c :: first) : parse (blanks ++ c :: first) =
      (parse (c :: first)).mapError (ParseError.shift blanks.length) := by
    have hwhole : '=' ∉ blanks ++ c :: first := by
      rw [List.mem_append, not_or]
      exact ⟨not_mem_of_blanks hblanks, h⟩
    rw [parse_of_not_mem hwhole, parse_of_not_mem h, Parse.side_blanks_append 0 hblanks hc,
      Parse.side_shift]
    cases Parse.side 0 (c :: first) <;> rfl
  by_cases hmem : '=' ∈ c :: rest
  · obtain ⟨a, b, hab, ha⟩ := List.eq_append_cons_of_mem hmem
    cases a with
    | nil => exact absurd (List.cons.inj hab).1 hequal
    | cons d first =>
      obtain rfl : c = d := (List.cons.inj hab).1
      have hlength : (blanks ++ c :: first).length + 1 =
          blanks.length + ((c :: first).length + 1) := by
        rw [List.length_append, Nat.add_assoc]
      have hsplit := parse_append (blanks ++ c :: first) b
      rw [List.append_assoc, hfirst ha, hlength] at hsplit
      have hsplit' := parse_append (c :: first) b
      rw [hab, hsplit, hsplit']
      cases parse (c :: first) with
      | error e => rfl
      | ok x =>
        cases parse b with
        | error e => exact congrArg Except.error (ParseError.shift_add _ _ e)
        | ok y => rfl
  · exact hfirst hmem

theorem parse_trimLeft (text : Text) :
    parse text = (parse text.trimLeft).mapError (ParseError.shift text.indent) := by
  have hblanks : Text.AllBlank (text.takeWhile Text.isBlank) := fun _ hc =>
    List.mem_takeWhile_imp hc
  have htext := text.takeWhile_append_trimLeft
  cases htrim : text.trimLeft with
  | nil =>
    have hindent : text.indent = 0 := by rw [Text.indent, htrim]
    rw [htrim, List.append_nil] at htext
    rw [← htext, parse_blanks hblanks, htext, hindent, parse_blanks Text.allBlank_nil]
    rfl
  | cons c rest =>
    rw [htrim] at htext
    by_cases hequal : c = '='
    · subst hequal
      have hindent : text.indent = 0 := by rw [Text.indent, htrim]; rfl
      have hempty := parse_append [] rest
      rw [List.nil_append, parse_blanks Text.allBlank_nil] at hempty
      rw [← htext, parse_append, parse_blanks hblanks, htext, hindent, hempty]
      rfl
    · have hindent : text.indent = (text.takeWhile Text.isBlank).length := by
        rw [Text.indent, htrim]
        exact if_neg hequal
      rw [hindent, ← parse_blanks_append hblanks (Text.isBlank_of_trimLeft htrim) hequal, htext]

/-- Trimming a text moves its parse errors and changes nothing else. -/
theorem parse_trim (text : Text) :
    parse text = (parse text.trim).mapError (ParseError.shift text.indent) := by
  obtain ⟨blanks, hblanks, htext⟩ := text.trimLeft.exists_trimRight
  have htrim := parse_append_blanks text.trim hblanks
  rw [Text.trim, ← htext] at htrim
  rw [parse_trimLeft, htrim, ← Text.trim]

/-- Every parse error of an equation has a column. -/
theorem exists_column {e : ParseError} (h : parse text = .error e) :
    ∃ column, e.column = some column := by
  unfold parse at h
  split at h
  · next hsides =>
    cases h
    obtain ⟨_, _, _, _, _, hblames⟩ := @Parse.blames_of_sides [] _ _ hsides
    cases hblames <;> exact ⟨_, rfl⟩
  · cases h

end Equation

/-! ## From a text to its markup -/

/-- The error of a parse error that moves; other errors have no column. -/
def ConversionError.shift (k : Nat) : ConversionError → ConversionError
  | parse e => parse (e.shift k)
  | e => e

theorem renderText_congr (layout : Layout) {text other : Text}
    (h : Equation.parse text = Equation.parse other) :
    renderText layout text = renderText layout other := by
  unfold renderText
  rw [h]

theorem mapError_shift_renderText {layout : Layout} {text : Text} {equation : Equation} (k : Nat)
    (h : Equation.parse text = .ok equation) :
    (renderText layout text).mapError (ConversionError.shift k) = renderText layout text := by
  cases hfold : Expr.foldAll equation.sides with
  | error e =>
    rw [renderText_of_foldAll_error h hfold]
    rfl
  | ok xs =>
    obtain ⟨texts, -, -, hrender⟩ := renderText_of_foldAll layout h hfold
    rw [hrender]
    rfl

theorem Equation.parse_trim_of_ok {text : Text} {equation : Equation}
    (h : parse text.trim = .ok equation) : parse text = .ok equation := by
  rw [parse_trim, h]
  rfl

theorem renderText_trim (layout : Layout) (text : Text) :
    renderText layout text =
      (renderText layout text.trim).mapError (ConversionError.shift text.indent) := by
  cases htrim : Equation.parse text.trim with
  | error e =>
    have hparse := Equation.parse_trim text
    rw [htrim] at hparse
    rw [renderText_of_parse_error htrim, renderText_of_parse_error hparse]
    rfl
  | ok equation =>
    rw [mapError_shift_renderText _ htrim]
    exact renderText_congr layout ((Equation.parse_trim_of_ok htrim).trans htrim.symm)

/-- Trimming goes unnoticed just when no column moves or there is no parse error. -/
theorem renderText_trim_eq_iff (layout : Layout) (text : Text) :
    renderText layout text.trim = renderText layout text ↔
      text.indent = 0 ∨ ∀ e, Equation.parse text ≠ .error e := by
  rw [renderText_trim layout text]
  cases htrim : Equation.parse text.trim with
  | error e =>
    obtain ⟨column, hcolumn⟩ := Equation.exists_column htrim
    have hparse := Equation.parse_trim text
    rw [htrim] at hparse
    have hfails : ¬ ∀ e, Equation.parse text ≠ .error e := fun h => h _ hparse
    have hmoves : e = e.shift text.indent ↔ text.indent = 0 := by
      constructor
      · intro h
        have hsame := congrArg ParseError.column h
        rw [ParseError.shift, hcolumn] at hsame
        simpa using hsame
      · intro h
        rw [h, ParseError.shift_zero]
    rw [renderText_of_parse_error htrim, or_iff_left hfails, ← hmoves]
    simp [Except.mapError, ConversionError.shift]
  | ok equation =>
    have hparse := Equation.parse_trim_of_ok htrim
    exact iff_of_true (mapError_shift_renderText _ htrim).symm (Or.inr (by simp [hparse]))

end MathMarkup
