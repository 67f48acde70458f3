import Mathlib
import MathMarkup.Proofs.CommandLine
import MathMarkup.Proofs.Trim

/-!
# Columns that a run reports

A run trims the expression that it is given and converts what is left. What it prints is what the
expression itself stands for, except that the column of a parse error counts from the first
character that is not blank.
-/
namespace MathMarkup.CommandLine

/-- The expression that a run is given, as an argument or in the standard input. -/
def Arguments.Gives (a : Arguments) (stdin : Option Content) (text : Text) : Prop :=
  a.vector = none ∧ a.matrix = none ∧ (a.expression = some text ∨
    a.expression = none ∧ ∃ content, stdin = some content ∧ content.readText = .ok text)

theorem Arguments.Gives.selected {a : Arguments} {stdin : Option Content} {text : Text}
    (h : a.Gives stdin text) : a.selected stdin = .ok (.scalar text.trim) := by
  obtain ⟨hvector, hmatrix, hexpression | ⟨hexpression, content, rfl, hcontent⟩⟩ := h
  · simp only [Arguments.selected, Arguments.value?, hvector, hmatrix, hexpression,
      Option.getD_some]
  · simp only [Arguments.selected, Arguments.value?, hvector, hmatrix, hexpression,
      Option.getD_none, expressionOf, hcontent]

section

variable {a : Arguments} {stdin : Option Content} {tree : FileTree} {settings : Settings}

theorem Arguments.HasSettings.run_settings (h : a.HasSettings tree settings) :
    StateT.run (m := Id) (a.settings (m := StateM FileTree)) tree =
      pure (.ok settings, tree) := by
  obtain ⟨base, rfl, ⟨hconfig, rfl⟩ | ⟨path, text, hconfig, htext, hbase⟩⟩ := h
  · simp only [Arguments.settings, hconfig]
    rfl
  · have hread : StateT.run (m := Id) (FileAccess.readText ⟨path⟩) tree =
        pure (tree.readText ⟨path⟩, tree) := rfl
    simp only [Arguments.settings, hconfig, Settings.load, StateT.run_bind, hread, htext, hbase,
      pure_bind]
    rfl

/-- A value without markup ends a run before anything is written. -/
theorem run_of_render_error {words : List Text} {value : Value} {e : ConversionError}
    (hwords : Arguments.read words = .ok a) (hsettings : a.HasSettings tree settings)
    (hvalue : a.selected stdin = .ok value) (herror : value.render settings.layout = .error e) :
    StateT.run (m := Id) (run (m := StateM FileTree) (pure stdin) words) tree =
      (⟨1, [], failureText (.conversion e)⟩, tree) := by
  rw [run_of_read hwords]
  simp only [Arguments.execute, StateT.run_bind, hsettings.run_settings, run_value, hvalue, herror,
    pure_bind]
  rfl

end

/-- What a run says of a parse error. -/
theorem failureText_parse {e : ParseError} {column : Nat} (h : e.column = some column) :
    failureText (.conversion (.parse e)) =
      ("Error: Parse error at column " ++ toString column ++ ": " ++ e.cause.message ++
        "\n").toList := by
  have hmessage : e.message =
      "Parse error at column " ++ toString column ++ ": " ++ e.cause.message := by
    rw [ParseError.message, h]
  have hstart (number colon cause : String) :
      "Error: " ++ ("Parse error at column " ++ number ++ colon ++ cause) ++ "\n" =
        "Error: Parse error at column " ++ number ++ colon ++ cause ++ "\n" := by
    have hwords : "Error: Parse error at column " = "Error: " ++ "Parse error at column " := by
      decide
    rw [hwords]
    simp only [String.append_assoc]
  have htext : failureText (.conversion (.parse e)) = ("Error: " ++ e.message ++ "\n").toList := rfl
  rw [htext, hmessage, hstart]

/-- An expression and what is left of it after trimming have the same markup and the same errors, up
to the column of a parse error. A run that is given the expression reports this column less by the
blanks in front, so that the reported column is that of the expression only if there are none of
them, or if the first side is blank. -/
theorem run_reports_trimmed_columns (text : Text) :
    (∀ layout, renderText layout text =
      (renderText layout text.trim).mapError (ConversionError.shift text.indent)) ∧
    (∀ layout, renderText layout text.trim = renderText layout text ↔
      text.indent = 0 ∨ ∀ e, Equation.parse text ≠ .error e) ∧
    ∀ words a stdin tree settings, Arguments.read words = .ok a → a.Gives stdin text →
      a.HasSettings tree settings →
        a.selected stdin = .ok (.scalar text.trim) ∧
        ∀ e, Equation.parse text = .error e → ∃ column, e.column = some (column + text.indent) ∧
          StateT.run (m := Id) (run (m := StateM FileTree) (pure stdin) words) tree =
            (⟨1, [], ("Error: Parse error at column " ++ toString column ++ ": " ++
              e.cause.message ++ "\n").toList⟩, tree) := by
  refine ⟨fun layout => renderText_trim layout text,
    fun layout => renderText_trim_eq_iff layout text,
    fun words a stdin tree settings hwords hgives hsettings => ⟨hgives.selected, fun e he => ?_⟩⟩
  have hparse := Equation.parse_trim text
  rw [he] at hparse
  cases htrim : Equation.parse text.trim with
  | ok equation =>
    rw [htrim] at hparse
    cases hparse
  | error e' =>
    rw [htrim] at hparse
    obtain rfl := Except.error.inj hparse
    obtain ⟨column, hcolumn⟩ := Equation.exists_column htrim
    have herror : (Value.scalar text.trim).render settings.layout = .error (.parse e') :=
      renderText_of_parse_error htrim
    refine ⟨column, by rw [ParseError.shift, hcolumn]; rfl, ?_⟩
    rw [run_of_render_error hwords hsettings hgives.selected herror, failureText_parse hcolumn]
    rfl

/-- A closing parenthesis without a partner in the second side, after two blanks in front. -/
theorem run_reports_trimmed_columns_stdin :
    let text : Text := "  f=x)\n".toList
    let tree : FileTree := ⟨[]⟩
    Arguments.read [] = .ok .empty ∧ Arguments.empty.Gives (some (.text text)) text ∧
    Arguments.empty.HasSettings tree .default ∧
    Equation.parse text = .error ⟨.unmatched, some 6⟩ ∧
    StateT.run (m := Id) (run (m := StateM FileTree) (pure (some (.text text))) []) tree =
      (⟨1, [], "Error: Parse error at column 4: unbalanced parentheses: unmatched ')'\n".toList⟩,
        tree) := by
  intro text tree
  have hwords : Arguments.read [] = .ok .empty := rfl
  have hgives : Arguments.empty.Gives (some (.text text)) text :=
    ⟨rfl, rfl, Or.inr ⟨rfl, .text text, rfl, rfl⟩⟩
  have hsettings : Arguments.empty.HasSettings tree .default := ⟨.default, rfl, Or.inl ⟨rfl, rfl⟩⟩
  have hparse : Equation.parse "  f=x)\n".toList = .error ⟨.unmatched, some 6⟩ := by cbv
  have hruns := (run_reports_trimmed_columns text).2.2 [] .empty _ tree _ hwords hgives hsettings
  obtain ⟨column, hcolumn, hrun⟩ := hruns.2 _ hparse
  have hindent : text.indent = 2 := by decide
  rw [hindent] at hcolumn
  obtain rfl : column = 4 := by simpa using (Option.some.inj hcolumn).symm
  exact ⟨hwords, hgives, hsettings, hparse, hrun⟩

/-- A closing parenthesis behind a blank: it is the second character, and reported as the first. -/
theorem run_reports_column_of_blank :
    let text : Text := " )".toList
    let tree : FileTree := ⟨[]⟩
    renderText .compact text = .error (.parse ⟨.unmatched, some 2⟩) ∧
    renderText .compact text.trim = .error (.parse ⟨.unmatched, some 1⟩) ∧
    StateT.run (m := Id) (run (m := StateM FileTree) (pure none) [text]) tree =
      (⟨1, [], "Error: Parse error at column 1: unbalanced parentheses: unmatched ')'\n".toList⟩,
        tree) := by
  intro text tree
  have hwhole : renderText .compact " )".toList = .error (.parse ⟨.unmatched, some 2⟩) := by cbv
  have htrimmed : renderText .compact ")".toList = .error (.parse ⟨.unmatched, some 1⟩) := by cbv
  have htrim : text.trim = ")".toList := by decide
  let a : Arguments := { Arguments.empty with expression := some text }
  have hwords : Arguments.read [text] = .ok a := rfl
  have hgives : a.Gives none text := ⟨rfl, rfl, Or.inl rfl⟩
  have hsettings : a.HasSettings tree .default := ⟨.default, rfl, Or.inl ⟨rfl, rfl⟩⟩
  have hselected := hgives.selected
  rw [htrim] at hselected ⊢
  have hrun := run_of_render_error hwords hsettings hselected htrimmed
  rw [failureText_parse rfl] at hrun
  exact ⟨hwhole, htrimmed, hrun⟩

end MathMarkup.CommandLine
