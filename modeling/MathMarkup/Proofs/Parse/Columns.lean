import Mathlib
import MathMarkup.Expr.Diagnosis
import MathMarkup.Proofs.Parse.Sound
import MathMarkup.Proofs.Scan.Columns

/-!
# Reading does not look at columns

Whatever columns the tokens are given, every reader finds the same expression, or the same fault at
the column that its token is given. The column of the end is never reported, because a reader comes
to the end of some tokens only when an operand should follow one of them. So sides that are scanned
as the same tokens are read alike, up to the columns of faults.
-/
namespace MathMarkup

/-- The token at another column. -/
def PlacedToken.relabel (f : Nat → Nat) (t : PlacedToken) : PlacedToken :=
  { t with column := f t.column }

def ParseError.relabel (f : Nat → Nat) (e : ParseError) : ParseError :=
  { e with column := e.column.map f }

namespace Parse

/-- A reading with other columns of the tokens left, or of the fault. -/
def relabelReading (f : Nat → Nat) : Reading → Reading
  | .ok (x, rest) => .ok (x, rest.map (PlacedToken.relabel f))
  | .error e => .error (e.relabel f)

/-- If the tokens are at their end, the one before awaits an operand. -/
def GoesOn (before : Option PlacedToken) (tokens : List PlacedToken) : Prop :=
  tokens = [] → ∃ t, before = some t ∧ t.token.awaitsOperand = true

variable {f : Nat → Nat} {endColumn endColumn' : Nat}

theorem goesOn_after {t : PlacedToken} (h : t.token.awaitsOperand = true)
    (rest : List PlacedToken) : GoesOn (some t) rest := fun _ => ⟨t, rfl, h⟩

/-! ## The parts of the readers -/

theorem relabel_mk (token : Token) (column : Nat) :
    PlacedToken.relabel f ⟨token, column⟩ = ⟨token, f column⟩ := rfl

theorem relabelReading_bind {r : Reading} {next next' : Expr × List PlacedToken → Reading}
    (h : ∀ x rest, r = .ok (x, rest) →
      next' (x, rest.map (PlacedToken.relabel f)) = relabelReading f (next (x, rest))) :
    (relabelReading f r).bind next' = relabelReading f (r.bind next) := by
  cases r with
  | error e => rfl
  | ok found => exact h found.1 found.2 rfl

theorem relabelReading_map {r : Reading} (build : Expr → Expr) :
    (relabelReading f r).map (fun found => (build found.1, found.2)) =
      relabelReading f (r.map fun found => (build found.1, found.2)) := by
  cases r with
  | error e => rfl
  | ok found => rfl

theorem missingAtEnd_relabel {before : Option PlacedToken} (h : GoesOn before []) :
    (missingAtEnd endColumn' (before.map (PlacedToken.relabel f)) : Reading) =
      relabelReading f (missingAtEnd endColumn before) := by
  obtain ⟨⟨token, column⟩, rfl, hawaits⟩ := h rfl
  cases token with
  | operator op => rfl
  | opening => rfl
  | number v => cases hawaits
  | ident name => cases hawaits
  | closing => cases hawaits

theorem missingAtClosing_relabel (column : Nat) (before : Option PlacedToken) :
    (missingAtClosing (f column) (before.map (PlacedToken.relabel f)) : Reading) =
      relabelReading f (missingAtClosing column before) := by
  rcases before with _ | ⟨token, other⟩
  · rfl
  · cases token <;> rfl

theorem readClosing_relabel (openColumn : Nat) (x : Expr) (rest : List PlacedToken) :
    readClosing (f openColumn) (x, rest.map (PlacedToken.relabel f)) =
      relabelReading f (readClosing openColumn (x, rest)) := by
  rcases rest with _ | ⟨⟨token, column⟩, rest⟩
  · rfl
  · cases token <;> rfl

theorem endsName_relabel {rest : List PlacedToken} (h : EndsName rest) :
    EndsName (rest.map (PlacedToken.relabel f)) := by
  cases rest with
  | nil => rintro t ⟨⟩
  | cons t rest =>
    rintro u ⟨⟩
    exact h t rfl

/-! ## The readers -/

/-- What each reader does with other columns. -/
def columns (f : Nat → Nat) (endColumn endColumn' : Nat) : Motive where
  sum before tokens := GoesOn before tokens →
    readSum endColumn' (before.map (PlacedToken.relabel f)) (tokens.map (PlacedToken.relabel f)) =
      relabelReading f (readSum endColumn before tokens)
  sumTail left tokens :=
    readSumTail endColumn' left (tokens.map (PlacedToken.relabel f)) =
      relabelReading f (readSumTail endColumn left tokens)
  product before tokens := GoesOn before tokens →
    readProduct endColumn' (before.map (PlacedToken.relabel f))
        (tokens.map (PlacedToken.relabel f)) =
      relabelReading f (readProduct endColumn before tokens)
  productTail left tokens :=
    readProductTail endColumn' left (tokens.map (PlacedToken.relabel f)) =
      relabelReading f (readProductTail endColumn left tokens)
  factor before tokens := GoesOn before tokens →
    readFactor endColumn' (before.map (PlacedToken.relabel f))
        (tokens.map (PlacedToken.relabel f)) =
      relabelReading f (readFactor endColumn before tokens)
  group bracket tokens := bracket.token = .opening →
    readGroup endColumn' (bracket.relabel f) (tokens.map (PlacedToken.relabel f)) =
      relabelReading f (readGroup endColumn bracket tokens)

theorem columns_inductive (f : Nat → Nat) (endColumn endColumn' : Nat) :
    (columns f endColumn endColumn').Inductive endColumn where
  sum before tokens hproduct htail hgoes := by
    dsimp only [columns] at hproduct htail ⊢
    rw [readSum_eq, readSum_eq, hproduct hgoes]
    exact relabelReading_bind htail
  sumTail_nil left := by
    simp only [columns, List.map_nil]
    rw [readSumTail_nil, readSumTail_nil]
    rfl
  sumTail_stop left t rest hop := by
    have hop' : additive? (t.relabel f).token = none := hop
    simp only [columns, List.map_cons]
    rw [readSumTail_stop hop, readSumTail_stop hop']
    rfl
  sumTail_step left t rest op hop hproduct htail := by
    have hop' : additive? (t.relabel f).token = some op := hop
    have hgoes : GoesOn (some t) rest := goesOn_after (by rw [(additive?_eq_some hop).1]; rfl) rest
    simp only [columns, List.map_cons, Option.map_some] at hproduct htail ⊢
    rw [readSumTail_step hop, readSumTail_step hop', hproduct hgoes]
    exact relabelReading_bind htail
  product before tokens hfactor htail hgoes := by
    dsimp only [columns] at hfactor htail ⊢
    rw [readProduct_eq, readProduct_eq, hfactor hgoes]
    exact relabelReading_bind htail
  productTail_nil left := by
    simp only [columns, List.map_nil]
    rw [readProductTail_nil, readProductTail_nil]
    rfl
  productTail_stop left t rest hop := by
    have hop' : multiplicative? (t.relabel f).token = none := hop
    simp only [columns, List.map_cons]
    rw [readProductTail_stop hop, readProductTail_stop hop']
    rfl
  productTail_step left t rest op hop hfactor htail := by
    have hop' : multiplicative? (t.relabel f).token = some op := hop
    have hgoes : GoesOn (some t) rest :=
      goesOn_after (by rw [(multiplicative?_eq_some hop).1]; rfl) rest
    simp only [columns, List.map_cons, Option.map_some] at hfactor htail ⊢
    rw [readProductTail_step hop, readProductTail_step hop', hfactor hgoes]
    exact relabelReading_bind htail
  factor_nil before hgoes := by
    simp only [List.map_nil]
    rw [readFactor_nil, readFactor_nil]
    exact missingAtEnd_relabel hgoes
  factor_number before v column rest _ := by
    simp only [List.map_cons, relabel_mk]
    rw [readFactor_number, readFactor_number]
    rfl
  factor_minus before column rest hfactor _ := by
    have hoperand := hfactor (goesOn_after rfl rest)
    simp only [List.map_cons, Option.map_some, relabel_mk] at hoperand ⊢
    rw [readFactor_minus, readFactor_minus, hoperand]
    exact relabelReading_map .neg
  factor_plus before column rest hfactor _ := by
    have hoperand := hfactor (goesOn_after rfl rest)
    simp only [List.map_cons, Option.map_some, relabel_mk] at hoperand ⊢
    rw [readFactor_plus, readFactor_plus, hoperand]
  factor_operator before op column rest hop _ := by
    simp only [List.map_cons, relabel_mk]
    rw [readFactor_operator hop, readFactor_operator hop]
    rfl
  factor_closing before column rest _ := by
    simp only [List.map_cons, relabel_mk]
    rw [readFactor_closing, readFactor_closing]
    exact missingAtClosing_relabel column before
  factor_opening before column rest hgroup _ := by
    have hinner := hgroup rfl
    simp only [List.map_cons, relabel_mk] at hinner ⊢
    rw [readFactor_opening, readFactor_opening, hinner]
  factor_unknown before name column openColumn rest hf _ := by
    simp only [List.map_cons, relabel_mk]
    rw [readFactor_unknown hf, readFactor_unknown hf]
    rfl
  factor_call before name column openColumn rest function hfunction hgroup _ := by
    have hinner := hgroup rfl
    simp only [List.map_cons, relabel_mk] at hinner ⊢
    rw [readFactor_call hfunction, readFactor_call hfunction, hinner]
    exact relabelReading_map fun x => .call name [x]
  factor_ident before name column rest hend _ := by
    have hend' : EndsName (rest.map (PlacedToken.relabel f)) := endsName_relabel hend
    simp only [List.map_cons, relabel_mk] at hend' ⊢
    rw [readFactor_ident hend, readFactor_ident hend']
    rfl
  group bracket tokens hsum hopening := by
    have hinner := hsum (goesOn_after (by rw [hopening]; rfl) tokens)
    dsimp only [Option.map_some] at hinner ⊢
    rw [readGroup_eq, readGroup_eq, hinner]
    exact relabelReading_bind fun x rest _ => readClosing_relabel bracket.column x rest

/-! ## Sides -/

theorem readEnd_relabel (x : Expr) (rest : List PlacedToken) :
    readEnd (x, rest.map (PlacedToken.relabel f)) =
      (readEnd (x, rest)).mapError (ParseError.relabel f) := by
  rcases rest with _ | ⟨⟨token, column⟩, rest⟩
  · rfl
  · cases token <;> rfl

/-- The tokens of a side with other columns, and with any column for its end. -/
theorem ofTokens_relabel (f : Nat → Nat) (endColumn endColumn' : Nat) {tokens : List PlacedToken}
    (h : tokens ≠ []) : ofTokens endColumn' (tokens.map (PlacedToken.relabel f)) =
      (ofTokens endColumn tokens).mapError (ParseError.relabel f) := by
  have hsum : readSum endColumn' none (tokens.map (PlacedToken.relabel f)) =
      relabelReading f (readSum endColumn none tokens) :=
    (columns_inductive f endColumn endColumn').read_induct none tokens fun hnil => absurd hnil h
  rw [ofTokens_eq, ofTokens_eq, hsum]
  cases readSum endColumn none tokens with
  | error e => rfl
  | ok found => exact readEnd_relabel found.1 found.2

/-- No error is reported at the end of the tokens. -/
theorem ofTokens_endColumn (endColumn endColumn' : Nat) {tokens : List PlacedToken}
    (h : tokens ≠ []) : ofTokens endColumn' tokens = ofTokens endColumn tokens := by
  have hrelabel := ofTokens_relabel id endColumn endColumn' h
  have hmap : tokens.map (PlacedToken.relabel id) = tokens := List.map_id tokens
  rw [hmap] at hrelabel
  rw [hrelabel]
  cases ofTokens endColumn tokens with
  | error e => simp [Except.mapError, ParseError.relabel]
  | ok x => rfl

theorem side_shift (base k : Nat) (text : Text) :
    side (base + k) text = (side base text).mapError (ParseError.shift k) := by
  have htokens : tokenize (base + k) text = shiftScan k (tokenize base text) := by
    unfold tokenize
    rw [Nat.add_right_comm, scanFrom_add]
  unfold side
  rw [htokens]
  cases tokenize base text with
  | error e => rfl
  | ok tokens =>
    cases tokens with
    | nil =>
      simp only [shiftScan, List.map_nil, failAt, Except.mapError, ParseError.shift,
        Option.map_some, Nat.add_right_comm]
    | cons t tokens =>
      exact ofTokens_relabel (· + k) _ _ (List.cons_ne_nil t tokens)

theorem mapError_bind {α β ε : Type} (f : ParseError → ε) (r : Except ParseError α)
    (next : α → Except ParseError β) :
    (r.bind next).mapError f = (r.mapError f).bind fun x => (next x).mapError f := by
  cases r <;> rfl

theorem mapError_map {α β ε : Type} (f : ParseError → ε) (r : Except ParseError α)
    (build : α → β) : (r.map build).mapError f = (r.mapError f).map build := by
  cases r <;> rfl

theorem sides_cons (base : Nat) (part : Text) (parts : List Text) :
    sides base (part :: parts) =
      (side base part).bind fun x => (sides (base + part.length + 1) parts).map (x :: ·) := by
  rw [sides]
  cases side base part with
  | error e => rfl
  | ok x => cases sides (base + part.length + 1) parts <;> rfl

theorem sides_shift (base k : Nat) (parts : List Text) :
    sides (base + k) parts = (sides base parts).mapError (ParseError.shift k) := by
  induction parts generalizing base with
  | nil => rfl
  | cons part parts ih =>
    have hnext : base + k + part.length + 1 = base + part.length + 1 + k := by omega
    rw [sides_cons, sides_cons, mapError_bind, side_shift, hnext, ih]
    congr 1
    funext x
    rw [mapError_map]

/-! ## Sides with the same tokens -/

/-- Two texts are scanned as the same tokens. -/
def SameTokens (text other : Text) : Prop :=
  ∃ ts, Token.ofText text = .ok ts ∧ Token.ofText other = .ok ts

theorem mapError_cause_relabel {α : Type} (f : Nat → Nat) (r : Except ParseError α) :
    (r.mapError (ParseError.relabel f)).mapError ParseError.cause =
      r.mapError ParseError.cause := by
  cases r <;> rfl

/-- Tokens of the same kinds are read alike, wherever they stand. -/
theorem mapError_cause_ofTokens {tokens others : List PlacedToken} (endColumn endColumn' : Nat)
    (hne : tokens ≠ []) (hkinds : tokens.map PlacedToken.token = others.map PlacedToken.token) :
    (ofTokens endColumn tokens).mapError ParseError.cause =
      (ofTokens endColumn' others).mapError ParseError.cause := by
  have hothers : others ≠ [] := by
    rintro rfl
    exact hne (List.map_eq_nil_iff.1 hkinds)
  have hrelabel : tokens.map (PlacedToken.relabel fun _ => 0) =
      others.map (PlacedToken.relabel fun _ => 0) := by
    have hplace : PlacedToken.relabel (fun _ => 0) =
        (fun token => (⟨token, 0⟩ : PlacedToken)) ∘ PlacedToken.token := rfl
    rw [hplace, ← List.map_map, ← List.map_map, hkinds]
  have htokens := ofTokens_relabel (fun _ => 0) endColumn 0 hne
  rw [hrelabel, ofTokens_relabel _ endColumn' 0 hothers] at htokens
  have hcause := congrArg (Except.mapError ParseError.cause) htokens
  rw [mapError_cause_relabel, mapError_cause_relabel] at hcause
  exact hcause.symm

theorem SameTokens.mapError_cause_side {text other : Text} (h : SameTokens text other)
    (base base' : Nat) :
    (side base text).mapError ParseError.cause = (side base' other).mapError ParseError.cause := by
  obtain ⟨ts, htext, hother⟩ := h
  obtain ⟨tokens, htokens, rfl⟩ := tokenize_of_ofText base htext
  obtain ⟨others, hothers, hkinds⟩ := tokenize_of_ofText base' hother
  unfold side
  rw [htokens, hothers]
  cases tokens with
  | nil =>
    obtain rfl : others = [] := List.map_eq_nil_iff.1 hkinds
    rfl
  | cons t tokens =>
    cases others with
    | nil => cases hkinds
    | cons u others => exact mapError_cause_ofTokens _ _ (List.cons_ne_nil t tokens) hkinds.symm

theorem mapError_cause_sides {parts others : List Text} (h : List.Forall₂ SameTokens parts others)
    (base base' : Nat) :
    (sides base parts).mapError ParseError.cause =
      (sides base' others).mapError ParseError.cause := by
  induction h generalizing base base' with
  | nil => rfl
  | @cons part other parts others hfirst _ ih =>
    have hrest := ih (base + part.length + 1) (base' + other.length + 1)
    rw [sides_cons, sides_cons, mapError_bind, mapError_bind,
      hfirst.mapError_cause_side base base']
    congr 1
    funext x
    rw [mapError_map, mapError_map, hrest]

end Parse

end MathMarkup
