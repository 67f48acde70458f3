import Mathlib
import MathMarkup.Proofs.Fold.Steps
import MathMarkup.Expr.Substitution

/-!
# Folding and later substitution

Folding early changes nothing: what an expression folds to still folds, after any substitution, to
what the expression itself would have, and a failure is never taken back by a substitution.
`foretells_fold` carries values and failures through one induction.
-/
namespace MathMarkup.Expr

/-- A number folds to itself, so it can stand for the subtree that it is the value of. -/
def IsStable (x : Expr) : Prop := ∀ v, x = number v → x.fold = .ok x

theorem isStable_of_fold {x y : Expr} (h : x.fold = .ok y) : IsStable y := by
  rintro v rfl
  exact (isLiteral_of_fold_eq_number h).fold

/-- What the result of folding says about the result after a substitution: the value may be folded
instead, and a failure stays one. -/
def Foretells (s : Text → Expr) (result later : Except EvaluationError Expr) : Prop :=
  match result with
  | .ok y => (y.substitute s).fold = later
  | .error _ => ∃ e, later = .error e

/-- The same for lists. -/
def ForetellsAll (s : Text → Expr) (result later : Except EvaluationError (List Expr)) : Prop :=
  match result with
  | .ok ys => foldAll (substituteAll s ys) = later
  | .error _ => ∃ e, later = .error e

theorem foretells_isLiteral {s : Text → Expr} {x : Expr} (h : IsLiteral x) :
    Foretells s (.ok x) (.ok x) := by
  obtain ⟨hv⟩ := h
  exact (IsLiteral.intro hv).fold

/-! ## Single nodes with folded parts -/

theorem foretells_literal (s : Text → Expr) (source : EvaluationError.Source) (v : Binary64) :
    Foretells s (literal source v) (literal source v) := by
  cases h : literal source v with
  | error e => exact ⟨e, rfl⟩
  | ok x => exact foretells_isLiteral (isLiteral_of_literal h)

theorem foretells_foldNeg (s : Text → Expr) {x : Expr} (hx : IsStable x) :
    Foretells s (foldNeg x) ((neg x).substitute s).fold := by
  cases x with
  | number v =>
    have hlater : ((neg (number v)).substitute s).fold = foldNeg (number v) :=
      fold_neg_of_ok (hx v rfl)
    rw [hlater]
    exact foretells_literal s _ _
  | _ => rfl

theorem foretells_foldBinary (s : Text → Expr) (op : BinaryOp) {x y : Expr} (hx : IsStable x)
    (hy : IsStable y) : Foretells s (foldBinary op x y) ((binary op x y).substitute s).fold := by
  unfold foldBinary
  split
  · next a b =>
    have hlater : ((binary op (number a) (number b)).substitute s).fold =
        foldBinary op (number a) (number b) := fold_binary_of_ok (hx a rfl) (hy b rfl)
    rw [hlater, foldBinary]
    split
    · exact ⟨_, rfl⟩
    · exact foretells_literal s _ _
  · rfl

theorem foretells_foldCall (s : Text → Expr) (name : Text) {xs : List Expr}
    (h : ∀ x ∈ xs, IsStable x) :
    Foretells s (foldCall name xs) ((call name xs).substitute s).fold := by
  unfold foldCall
  split
  · next f v hf =>
    have hv : foldAll [number v] = .ok [number v] := by
      simp only [foldAll, h (number v) (List.mem_singleton_self _) v rfl]
    have hlater : ((call name [number v]).substitute s).fold = foldCall name [number v] :=
      fold_call_of_ok hv
    rw [hlater]
    simp only [foldCall, hf]
    split
    · next hfinite => exact foretells_isLiteral (.intro hfinite)
    · exact ⟨_, rfl⟩
  · rfl

/-! ## Whole expressions -/

section Congruence

/-! Folding looks at a part only through what that part folds to. -/

variable {x x' y y' : Expr} {xs ys : List Expr}

theorem fold_neg_congr (h : x.fold = x'.fold) : (neg x).fold = (neg x').fold := by
  simp only [fold, h]

theorem fold_binary_congr (op : BinaryOp) (hx : x.fold = x'.fold) (hy : y.fold = y'.fold) :
    (binary op x y).fold = (binary op x' y').fold := by
  simp only [fold, hx, hy]

theorem fold_call_congr (name : Text) (h : foldAll xs = foldAll ys) :
    (call name xs).fold = (call name ys).fold := by
  simp only [fold, h]

theorem foldAll_cons_congr (hx : x.fold = x'.fold) (h : foldAll xs = foldAll ys) :
    foldAll (x :: xs) = foldAll (x' :: ys) := by
  simp only [foldAll, hx, h]

end Congruence

theorem foretellsAll_foldAll (s : Text → Expr) {xs : List Expr}
    (h : ∀ x ∈ xs, Foretells s x.fold (x.substitute s).fold) :
    ForetellsAll s (foldAll xs) (foldAll (substituteAll s xs)) := by
  induction xs with
  | nil => rfl
  | cons x xs ih =>
    have hx := h x List.mem_cons_self
    have hs := ih fun y hy => h y (List.mem_cons_of_mem x hy)
    cases hr : x.fold with
    | error e =>
      obtain ⟨e', he⟩ : ∃ e', (x.substitute s).fold = .error e' := by rwa [hr] at hx
      simp only [foldAll, substituteAll, hr, he]
      exact ⟨e', rfl⟩
    | ok y =>
      have hy : (y.substitute s).fold = (x.substitute s).fold := by rwa [hr] at hx
      cases hrs : foldAll xs with
      | error e =>
        obtain ⟨e', he⟩ : ∃ e', foldAll (substituteAll s xs) = .error e' := by rwa [hrs] at hs
        cases hl : (x.substitute s).fold <;> simp only [foldAll, substituteAll, hr, hrs, hl, he]
        · exact ⟨_, rfl⟩
        · exact ⟨_, rfl⟩
      | ok ys =>
        have hys : foldAll (substituteAll s ys) = foldAll (substituteAll s xs) := by
          rwa [hrs] at hs
        simp only [foldAll, hr, hrs]
        exact foldAll_cons_congr hy hys

theorem foretells_fold (s : Text → Expr) (x : Expr) :
    Foretells s x.fold (x.substitute s).fold := by
  induction x with
  | number v => exact foretells_literal s .literal v
  | ident name => rfl
  | neg x ih =>
    cases hx : x.fold with
    | error e =>
      obtain ⟨e', he⟩ : ∃ e', (x.substitute s).fold = .error e' := by rwa [hx] at ih
      simp only [fold, substitute, hx, he]
      exact ⟨e', rfl⟩
    | ok x' =>
      have hlater : ((neg x').substitute s).fold = ((neg x).substitute s).fold :=
        fold_neg_congr (by rwa [hx] at ih)
      rw [fold_neg_of_ok hx, ← hlater]
      exact foretells_foldNeg s (isStable_of_fold hx)
  | binary op x y ihx ihy =>
    cases hx : x.fold with
    | error e =>
      obtain ⟨e', he⟩ : ∃ e', (x.substitute s).fold = .error e' := by rwa [hx] at ihx
      simp only [fold, substitute, hx, he]
      exact ⟨e', rfl⟩
    | ok x' =>
      cases hy : y.fold with
      | error e =>
        -- the left part may fail now, and then its error comes first
        obtain ⟨e', he⟩ : ∃ e', (y.substitute s).fold = .error e' := by rwa [hy] at ihy
        cases hl : (x.substitute s).fold <;> simp only [fold, substitute, hx, hy, hl, he]
        · exact ⟨_, rfl⟩
        · exact ⟨_, rfl⟩
      | ok y' =>
        have hlater : ((binary op x' y').substitute s).fold =
            ((binary op x y).substitute s).fold :=
          fold_binary_congr op (by rwa [hx] at ihx) (by rwa [hy] at ihy)
        rw [fold_binary_of_ok hx hy, ← hlater]
        exact foretells_foldBinary s op (isStable_of_fold hx) (isStable_of_fold hy)
  | call name arguments ih =>
    have hall := foretellsAll_foldAll s ih
    cases hs : foldAll arguments with
    | error e =>
      obtain ⟨e', he⟩ : ∃ e', foldAll (substituteAll s arguments) = .error e' := by
        rwa [hs] at hall
      simp only [fold, substitute, hs, he]
      exact ⟨e', rfl⟩
    | ok xs =>
      have hlater : ((call name xs).substitute s).fold =
          ((call name arguments).substitute s).fold :=
        fold_call_congr name (by rwa [hs] at hall)
      have hstable : ∀ x ∈ xs, IsStable x := by
        intro y hy
        obtain ⟨x, -, hx⟩ := exists_of_mem_foldAll hs y hy
        exact isStable_of_fold hx
      rw [fold_call_of_ok hs, ← hlater]
      exact foretells_foldCall s name hstable

/-- Folding first and substituting then gives what substituting at once gives, value or error, and
an expression that does not fold does not fold after any substitution. -/
theorem fold_commutes_substitute :
    (∀ (x y : Expr) (s : Text → Expr), x.fold = .ok y →
      (y.substitute s).fold = (x.substitute s).fold) ∧
    (∀ (x : Expr) (e : EvaluationError) (s : Text → Expr), x.fold = .error e →
      ∃ e', (x.substitute s).fold = .error e') ∧
    (∀ x y : Expr, x.fold = .ok y → y.fold = .ok y) := by
  refine ⟨fun x y s h => ?_, fun x e s h => ?_, fun x y h => ?_⟩
  · have hs := foretells_fold s x
    rwa [h] at hs
  · have hs := foretells_fold s x
    rwa [h] at hs
  · have hs := foretells_fold ident x
    rw [h, substitute_ident] at hs
    change (y.substitute ident).fold = x.fold at hs
    rw [← h, ← hs, substitute_ident]

/-- A divisor that folds to zero fails only once the dividend is a number, and a zero over zero
fails whatever stands beside it. -/
theorem fold_commutes_substitute_zero_divisor :
    let x := binary .div (ident ['a']) (neg (number .zero))
    let y := binary .div (ident ['a']) (number .zero)
    let z := binary .add (binary .div (number .zero) (number .zero)) (ident ['a'])
    let s : Text → Expr := fun _ => number .zero
    (x.fold = .ok y ∧ (y.substitute s).fold = (x.substitute s).fold ∧ y.fold = .ok y) ∧
      z.fold = .error (.divisionByZero .zero .zero) ∧ ∃ e, (z.substitute s).fold = .error e := by
  intro x y z s
  have hx : x.fold = .ok y := rfl
  have hz : z.fold = .error (.divisionByZero .zero .zero) := rfl
  obtain ⟨hlater, herror, hagain⟩ := fold_commutes_substitute
  exact ⟨⟨hx, hlater x y s hx, hagain x y hx⟩, hz, herror z _ s hz⟩

end MathMarkup.Expr
