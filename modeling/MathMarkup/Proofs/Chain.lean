import Mathlib
import MathMarkup.Proofs.Conversion
import MathMarkup.Proofs.Parse.Columns
import MathMarkup.Proofs.Text

/-!
# Two chains joined by an equality sign

The sides of the whole are those of the left part and then those of the right one. Reading, folding
and rendering pass through them in this order, each over all sides before the next begins, so that
a fault of reading in the right part comes before one of folding in the left part.
-/
namespace MathMarkup

/-! ## Reading -/

namespace Parse

theorem sides_append (base : Nat) (parts others : List Text) :
    sides base (parts ++ others) =
      (sides base parts).bind fun xs =>
        (sides (base + (parts.map fun part => part.length + 1).sum) others).map (xs ++ ·) := by
  induction parts generalizing base with
  | nil =>
    rw [List.nil_append]
    cases hothers : sides base others <;> simp [sides, Except.bind, Except.map, hothers]
  | cons part parts ih =>
    rw [List.cons_append, sides, sides, ih, List.map_cons, List.sum_cons]
    have hbase : base + (part.length + 1 + (parts.map fun part => part.length + 1).sum) =
        base + part.length + 1 + (parts.map fun part => part.length + 1).sum := by omega
    rw [hbase]
    cases side base part with
    | error e => rfl
    | ok x =>
      cases sides (base + part.length + 1) parts with
      | error e => rfl
      | ok xs =>
        simp only [Except.bind]
        cases sides (base + part.length + 1 + (parts.map fun part => part.length + 1).sum) others
          <;> rfl

end Parse

namespace Equation

theorem parse_eq (text : Text) :
    parse text = (Parse.sides 0 (text.split '=')).map Equation.mk := by
  unfold parse
  cases Parse.sides 0 (text.split '=') <;> rfl

/-- Both parts are read on their own; faults of the right one move behind the left one. -/
theorem parse_append (a b : Text) :
    parse (a ++ '=' :: b) =
      (parse a).bind fun x =>
        ((parse b).mapError (ParseError.shift (a.length + 1))).map fun y =>
          ⟨x.sides ++ y.sides⟩ := by
  have hshift := Parse.sides_shift 0 (a.length + 1) (b.split '=')
  rw [parse_eq, parse_eq, parse_eq, Text.split_append, Parse.sides_append,
    Text.sum_length_split, hshift]
  cases Parse.sides 0 (a.split '=') with
  | error e => rfl
  | ok xs => cases Parse.sides 0 (b.split '=') <;> rfl

end Equation

/-! ## Folding and rendering -/

namespace Expr

theorem foldAll_append (xs ys : List Expr) :
    foldAll (xs ++ ys) = (foldAll xs).bind fun xs' => (foldAll ys).map (xs' ++ ·) := by
  induction xs with
  | nil => cases hys : foldAll ys <;> simp [foldAll, Except.bind, Except.map, hys]
  | cons x xs ih =>
    rw [List.cons_append, foldAll, foldAll, ih]
    cases x.fold with
    | error e => rfl
    | ok x' =>
      cases foldAll xs with
      | error e => rfl
      | ok xs' => cases hys : foldAll ys <;> simp [Except.bind, Except.map]

theorem renderAll_append {layout : Layout} {xs ys : List Expr} {lefts rights : List Text}
    (hxs : renderAll layout xs = .ok lefts) (hys : renderAll layout ys = .ok rights) :
    renderAll layout (xs ++ ys) = .ok (lefts ++ rights) := by
  induction xs generalizing lefts with
  | nil =>
    cases hxs
    exact hys
  | cons x xs ih =>
    rw [renderAll] at hxs
    split at hxs
    · cases hxs
    · next text htext =>
      split at hxs
      · cases hxs
      · next texts htexts =>
        cases hxs
        rw [List.cons_append, renderAll, htext, ih htexts]
        rfl

theorem length_renderAll {layout : Layout} {xs : List Expr} {texts : List Text}
    (h : renderAll layout xs = .ok texts) : texts.length = xs.length := by
  induction xs generalizing texts with
  | nil =>
    cases h
    rfl
  | cons x xs ih =>
    rw [renderAll] at h
    split at h
    · cases h
    · split at h
      · cases h
      · next rest hrest =>
        cases h
        simp [ih hrest]

end Expr

/-! ## From a text to its markup -/

section

variable {layout : Layout} {text : Text} {equation : Equation}

theorem renderText_of_parse_error {e : ParseError} (h : Equation.parse text = .error e) :
    renderText layout text = .error (.parse e) := by
  rw [renderText, h]

theorem renderText_of_foldAll_error {e : EvaluationError}
    (hparse : Equation.parse text = .ok equation) (hfold : Expr.foldAll equation.sides = .error e) :
    renderText layout text = .error (.evaluation e) := by
  simp only [renderText, hparse, Equation.fold, hfold]

/-- The sides of a text that folds are all rendered. -/
theorem renderText_of_foldAll (layout : Layout) {xs : List Expr}
    (hparse : Equation.parse text = .ok equation) (hfold : Expr.foldAll equation.sides = .ok xs) :
    ∃ texts, texts ≠ [] ∧ Expr.renderAll layout xs = .ok texts ∧
      renderText layout text = .ok (Text.join (Equation.separator layout) texts) := by
  obtain ⟨hne, hreadable⟩ := Equation.isReadable_of_parse hparse
  have hequation : equation.fold = .ok ⟨xs⟩ := by rw [Equation.fold, hfold]
  obtain ⟨hlength, hwell⟩ := Equation.isWellFormed_of_fold hequation hreadable
  obtain ⟨texts, htexts⟩ := Expr.exists_renderAll layout hwell
  have hxs : xs ≠ [] := by
    rintro rfl
    exact hne (List.length_eq_zero_iff.1 hlength.symm)
  have htextsne : texts ≠ [] := by
    rintro rfl
    exact hxs (List.length_eq_zero_iff.1 (Expr.length_renderAll htexts).symm)
  refine ⟨texts, htextsne, htexts, ?_⟩
  simp only [renderText, hparse, hequation, Equation.render_of_ok hxs htexts]

end

theorem renderText_append (layout : Layout) {a b : Text} {x y : Equation}
    (ha : Equation.parse a = .ok x) (hb : Equation.parse b = .ok y) :
    renderText layout (a ++ '=' :: b) =
      (renderText layout a).bind fun left =>
        (renderText layout b).map fun right => left ++ Equation.separator layout ++ right := by
  have hwhole : Equation.parse (a ++ '=' :: b) = .ok ⟨x.sides ++ y.sides⟩ := by
    rw [Equation.parse_append, ha, hb]
    rfl
  have hfoldAll := Expr.foldAll_append x.sides y.sides
  cases hx : Expr.foldAll x.sides with
  | error e =>
    rw [hx] at hfoldAll
    rw [renderText_of_foldAll_error hwhole hfoldAll, renderText_of_foldAll_error ha hx]
    rfl
  | ok xs =>
    obtain ⟨lefts, hleftsne, hlefts, hrendera⟩ := renderText_of_foldAll layout ha hx
    rw [hx] at hfoldAll
    cases hy : Expr.foldAll y.sides with
    | error e =>
      rw [hy] at hfoldAll
      rw [renderText_of_foldAll_error hwhole hfoldAll, hrendera, renderText_of_foldAll_error hb hy]
      rfl
    | ok ys =>
      obtain ⟨rights, hrightsne, hrights, hrenderb⟩ := renderText_of_foldAll layout hb hy
      rw [hy] at hfoldAll
      obtain ⟨texts, -, htexts, hrender⟩ := renderText_of_foldAll layout hwhole hfoldAll
      rw [Expr.renderAll_append hlefts hrights] at htexts
      cases htexts
      rw [hrender, hrendera, hrenderb, Text.join_append hleftsne hrightsne]
      rfl

theorem exists_parse_of_renderText {layout : Layout} {text markup : Text}
    (h : renderText layout text = .ok markup) : ∃ equation, Equation.parse text = .ok equation := by
  cases hparse : Equation.parse text with
  | error e =>
    rw [renderText_of_parse_error hparse] at h
    cases h
  | ok equation => exact ⟨equation, rfl⟩

theorem Equation.exists_parse_of_parse_append {a b : Text} {z : Equation}
    (h : parse (a ++ '=' :: b) = .ok z) : (∃ x, parse a = .ok x) ∧ ∃ y, parse b = .ok y := by
  rw [parse_append] at h
  obtain ⟨x, hx, h⟩ := Parse.bind_eq_ok.1 h
  obtain ⟨y, hy, -⟩ := Parse.map_eq_ok.1 h
  refine ⟨⟨x, hx⟩, y, ?_⟩
  cases hb : parse b with
  | error e =>
    rw [hb] at hy
    cases hy
  | ok y' =>
    rw [hb] at hy
    cases hy
    rfl

theorem renderText_append_eq_ok_iff {layout : Layout} {a b markup : Text} :
    renderText layout (a ++ '=' :: b) = .ok markup ↔
      ∃ left right, renderText layout a = .ok left ∧ renderText layout b = .ok right ∧
        markup = left ++ Equation.separator layout ++ right := by
  constructor
  · intro h
    obtain ⟨z, hz⟩ := exists_parse_of_renderText h
    obtain ⟨⟨x, ha⟩, y, hb⟩ := Equation.exists_parse_of_parse_append hz
    rw [renderText_append layout ha hb] at h
    obtain ⟨left, hleft, h⟩ := Parse.bind_eq_ok.1 h
    obtain ⟨right, hright, rfl⟩ := Parse.map_eq_ok.1 h
    exact ⟨left, right, hleft, hright, rfl⟩
  · rintro ⟨left, right, hleft, hright, rfl⟩
    obtain ⟨x, ha⟩ := exists_parse_of_renderText hleft
    obtain ⟨y, hb⟩ := exists_parse_of_renderText hright
    rw [renderText_append layout ha hb, hleft, hright]
    rfl

theorem renderText_append_eq_evaluation_iff {layout : Layout} {a b : Text} {x y : Equation}
    {e : EvaluationError} (ha : Equation.parse a = .ok x) (hb : Equation.parse b = .ok y) :
    renderText layout (a ++ '=' :: b) = .error (.evaluation e) ↔
      renderText layout a = .error (.evaluation e) ∨
        (∃ left, renderText layout a = .ok left) ∧
          renderText layout b = .error (.evaluation e) := by
  rw [renderText_append layout ha hb]
  cases renderText layout a with
  | error e' => simp [Except.bind]
  | ok left => cases renderText layout b <;> simp [Except.bind, Except.map]

/-- Chains are handled side by side: what becomes of the whole is decided by its two parts. A fault
of reading in one part comes before a fault of folding in the other. -/
theorem renderText_sides (layout : Layout) (a b : Text) :
    (∀ e, Equation.parse a = .error e → Equation.parse (a ++ '=' :: b) = .error e) ∧
    (∀ x e, Equation.parse a = .ok x → Equation.parse b = .error e →
      Equation.parse (a ++ '=' :: b) = .error ⟨e.cause, e.column.map (· + (a.length + 1))⟩) ∧
    (∀ x y, Equation.parse a = .ok x → Equation.parse b = .ok y →
      Equation.parse (a ++ '=' :: b) = .ok ⟨x.sides ++ y.sides⟩) ∧
    ((∃ markup, renderText layout (a ++ '=' :: b) = .ok markup) ↔
      (∃ left, renderText layout a = .ok left) ∧ ∃ right, renderText layout b = .ok right) ∧
    (∀ left right, renderText layout a = .ok left → renderText layout b = .ok right →
      renderText layout (a ++ '=' :: b) = .ok (left ++ Equation.separator layout ++ right)) ∧
    (∀ x y e, Equation.parse a = .ok x → Equation.parse b = .ok y →
      (renderText layout (a ++ '=' :: b) = .error (.evaluation e) ↔
        renderText layout a = .error (.evaluation e) ∨
          (∃ left, renderText layout a = .ok left) ∧
            renderText layout b = .error (.evaluation e))) ∧
    (∀ e, Equation.parse a = .error e →
      renderText layout (a ++ '=' :: b) = .error (.parse e)) ∧
    (∀ x e, Equation.parse a = .ok x → Equation.parse b = .error e →
      renderText layout (a ++ '=' :: b) =
        .error (.parse ⟨e.cause, e.column.map (· + (a.length + 1))⟩)) := by
  have hparse := Equation.parse_append a b
  have hleft : ∀ e, Equation.parse a = .error e → Equation.parse (a ++ '=' :: b) = .error e := by
    intro e ha
    rw [hparse, ha]
    rfl
  have hright : ∀ x e, Equation.parse a = .ok x → Equation.parse b = .error e →
      Equation.parse (a ++ '=' :: b) = .error ⟨e.cause, e.column.map (· + (a.length + 1))⟩ := by
    intro x e ha hb
    rw [hparse, ha, hb]
    rfl
  have hboth : ∀ x y, Equation.parse a = .ok x → Equation.parse b = .ok y →
      Equation.parse (a ++ '=' :: b) = .ok ⟨x.sides ++ y.sides⟩ := by
    intro x y ha hb
    rw [hparse, ha, hb]
    rfl
  have hsuccess : (∃ markup, renderText layout (a ++ '=' :: b) = .ok markup) ↔
      (∃ left, renderText layout a = .ok left) ∧ ∃ right, renderText layout b = .ok right := by
    constructor
    · rintro ⟨markup, h⟩
      obtain ⟨left, right, ha, hb, -⟩ := renderText_append_eq_ok_iff.1 h
      exact ⟨⟨left, ha⟩, right, hb⟩
    · rintro ⟨⟨left, ha⟩, right, hb⟩
      exact ⟨_, renderText_append_eq_ok_iff.2 ⟨left, right, ha, hb, rfl⟩⟩
  exact ⟨hleft, hright, hboth, hsuccess,
    fun left right ha hb => renderText_append_eq_ok_iff.2 ⟨left, right, ha, hb, rfl⟩,
    fun x y e ha hb => renderText_append_eq_evaluation_iff ha hb,
    fun e ha => renderText_of_parse_error (hleft e ha),
    fun x e ha hb => renderText_of_parse_error (hright x e ha hb)⟩

/-- An open parenthesis on the left, an unknown function on the right of a division by zero, such a
division on the right of two sides, and a chain without faults. -/
theorem renderText_sides_division :
    let a : Expr := .ident ['a']
    let b : Expr := .ident ['b']
    let quotient : Expr := .binary .div (.number .zero) (.number .zero)
    let division : EvaluationError := .divisionByZero .zero .zero
    (Equation.parse "(".toList = .error ⟨.unclosed, some 1⟩ ∧
      Equation.parse ("(".toList ++ '=' :: "0/0".toList) = .error ⟨.unclosed, some 1⟩ ∧
      renderText .pretty ("(".toList ++ '=' :: "0/0".toList) =
        .error (.parse ⟨.unclosed, some 1⟩)) ∧
    (Equation.parse "x(".toList = .error ⟨.unknownFunction ['x'], some 1⟩ ∧
      Equation.parse ("0/0".toList ++ '=' :: "x(".toList) =
        .error ⟨.unknownFunction ['x'], some 5⟩ ∧
      renderText .pretty ("0/0".toList ++ '=' :: "x(".toList) =
        .error (.parse ⟨.unknownFunction ['x'], some 5⟩)) ∧
    (Equation.parse "a=b".toList = .ok ⟨[a, b]⟩ ∧ Equation.parse "0/0".toList = .ok ⟨[quotient]⟩ ∧
      Equation.parse ("a=b".toList ++ '=' :: "0/0".toList) = .ok ⟨[a, b, quotient]⟩ ∧
      renderText .pretty ("a=b".toList ++ '=' :: "0/0".toList) = .error (.evaluation division)) ∧
    (renderText .pretty "a".toList = .ok "a".toList ∧
      renderText .pretty "0".toList = .ok "0".toList ∧
      renderText .pretty ("a".toList ++ '=' :: "0".toList) = .ok "a = 0".toList) := by
  intro a b quotient division
  have hopen : Equation.parse "(".toList = .error ⟨.unclosed, some 1⟩ := by cbv
  have hunknown : Equation.parse "x(".toList = .error ⟨.unknownFunction ['x'], some 1⟩ := by cbv
  have hsides : Equation.parse "a=b".toList = .ok ⟨[a, b]⟩ := by
    dsimp only [a, b]
    cbv
  have hquotient : Equation.parse "0/0".toList = .ok ⟨[quotient]⟩ := by
    dsimp only [quotient]
    cbv
  have hleft : renderText .pretty "a=b".toList = .ok "a = b".toList := by cbv
  have hdivision : renderText .pretty "0/0".toList = .error (.evaluation division) := by
    dsimp only [division]
    cbv
  have ha : renderText .pretty "a".toList = .ok "a".toList := by cbv
  have hzero : renderText .pretty "0".toList = .ok "0".toList := by cbv
  obtain ⟨hfirst, -, -, -, -, -, hfirst', -⟩ :=
    renderText_sides .pretty "(".toList "0/0".toList
  obtain ⟨-, hsecond, -, -, -, -, -, hsecond'⟩ :=
    renderText_sides .pretty "0/0".toList "x(".toList
  obtain ⟨-, -, hboth, -, -, hevaluation, -, -⟩ :=
    renderText_sides .pretty "a=b".toList "0/0".toList
  obtain ⟨-, -, -, -, htext, -, -, -⟩ := renderText_sides .pretty "a".toList "0".toList
  exact ⟨⟨hopen, hfirst _ hopen, hfirst' _ hopen⟩,
    ⟨hunknown, hsecond _ _ hquotient hunknown, hsecond' _ _ hquotient hunknown⟩,
    ⟨hsides, hquotient, hboth _ _ hsides hquotient,
      (hevaluation _ _ _ hsides hquotient).2 (Or.inr ⟨⟨_, hleft⟩, hdivision⟩)⟩,
    ha, hzero, htext _ _ ha hzero⟩

end MathMarkup
