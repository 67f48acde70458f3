import Mathlib
import MathMarkup.Proofs.Parse.Balance
import MathMarkup.Proofs.Parse.Sound
import MathMarkup.Proofs.Scan.LongestMatch
import MathMarkup.Proofs.Text

/-!
# Parse errors are true of the place they name

A reader that fails is told the token before it, and may name that token or one of those that it is
given. What it says is true of all the tokens of the side, those before it included: an operand is
only looked for at the beginning and after a token that one has to follow, and what is read in
between is balanced.
-/
namespace MathMarkup

namespace Parse

open Grammar Lexeme

/-! ## Naming a token -/

/-- The error names one of the tokens, and its message is true of the place. -/
def Names (tokens : List PlacedToken) (e : ParseError) : Prop :=
  ∃ before t after, tokens = before ++ t :: after ∧
    Diagnosis (kinds before) t.token (kinds after) e.cause e.cause.message ∧
      e.column = some t.column

/-- If this fails, its error names one of the tokens. -/
def Explains {α : Type} (tokens : List PlacedToken) (r : Except ParseError α) : Prop :=
  ∀ e, r = .error e → Names tokens e

variable {α : Type} {before after used rest tokens : List PlacedToken}

theorem explains_ok {a : α} : Explains tokens (.ok a : Except ParseError α) := by
  rintro e ⟨⟩

theorem explains_failAt {token : Token} {column : Nat} {cause : ParseError.Cause}
    (h : Diagnosis (kinds before) token (kinds after) cause cause.message) :
    Explains (before ++ ⟨token, column⟩ :: after) (failAt cause column : Except ParseError α) := by
  rintro e ⟨⟩
  exact ⟨before, ⟨token, column⟩, after, rfl, h, rfl⟩

theorem Explains.of_eq {r r' : Except ParseError α} (h : r = r') (hr : Explains tokens r') :
    Explains tokens r :=
  h ▸ hr

theorem Explains.map {r : Reading} {f : Expr → Expr} (h : Explains tokens r) :
    Explains tokens (r.map fun found => (f found.1, found.2)) := by
  cases r with
  | error e => exact h
  | ok found => exact explains_ok

theorem Explains.bind {r : Reading} {f : Expr × List PlacedToken → Except ParseError α}
    (h : Explains tokens r) (hf : ∀ x rest, r = .ok (x, rest) → Explains tokens (f (x, rest))) :
    Explains tokens (r.bind f) := by
  cases r with
  | error e =>
    rintro e ⟨⟩
    exact h e rfl
  | ok found => exact hf found.1 found.2 rfl

/-! ## Where an operand is looked for -/

/-- An operand has to come after the tokens. -/
def Awaits (used : List PlacedToken) : Prop :=
  ∀ t ∈ used.getLast?, t.token.awaitsOperand = true

theorem awaits_nil : Awaits [] := by
  rintro t ⟨⟩

theorem awaits_concat {t : PlacedToken} (h : t.token.awaitsOperand = true) :
    Awaits (used ++ [t]) := by
  intro u hu
  rw [List.getLast?_concat] at hu
  cases hu
  exact h

theorem Awaits.kinds (h : Awaits used) :
    ∀ t ∈ (kinds used).getLast?, t.awaitsOperand = true := by
  intro t ht
  rw [Parse.kinds, List.getLast?_map, Option.mem_def, Option.map_eq_some_iff] at ht
  obtain ⟨u, hu, rfl⟩ := ht
  exact h u hu

theorem explains_missingAtEnd {endColumn : Nat} (h : Awaits used) (hne : used ≠ []) :
    Explains used (missingAtEnd endColumn used.getLast? : Except ParseError α) := by
  obtain ⟨front, ⟨token, column⟩, rfl⟩ := List.eq_nil_or_concat' used |>.resolve_left hne
  have hawaits := h ⟨token, column⟩ List.getLast?_concat
  rw [List.getLast?_concat]
  cases token with
  | operator op => exact explains_failAt (.nothingRight (by simp [kinds]))
  | opening =>
    refine explains_failAt (.unclosed Balanced.nil.not_closedIn fun inner rest hrest => ?_)
    simp [kinds] at hrest
  | number v => cases hawaits
  | ident name => cases hawaits
  | closing => cases hawaits

theorem explains_missingAtClosing {column : Nat} (h : Awaits used) :
    Explains (used ++ ⟨.closing, column⟩ :: rest)
      (missingAtClosing column used.getLast? : Except ParseError α) := by
  rcases List.eq_nil_or_concat' used with rfl | ⟨front, ⟨token, other⟩, rfl⟩
  · refine explains_failAt (.unmatched Balanced.nil.not_openedIn fun rest inner hrest => ?_)
    simp [kinds] at hrest
  · have hawaits := h ⟨token, other⟩ List.getLast?_concat
    rw [List.getLast?_concat, List.append_assoc]
    cases token with
    | operator op => exact explains_failAt (.nothingRight (by simp [kinds]))
    | opening => exact explains_failAt .emptyParentheses
    | number v => cases hawaits
    | ident name => cases hawaits
    | closing => cases hawaits

/-! ## Where an operand ends -/

/-- No operator comes next. -/
def EndsSum (tokens : List PlacedToken) : Prop :=
  ∀ t ∈ tokens.head?, t.token.isOperator = false

/-- A sum is read up to where no operator comes next. -/
def ending (endColumn : Nat) : Motive where
  sum before tokens := ∀ x rest, readSum endColumn before tokens = .ok (x, rest) → EndsSum rest
  sumTail left tokens := (∀ t ∈ tokens.head?, multiplicative? t.token = none) →
    ∀ x rest, readSumTail endColumn left tokens = .ok (x, rest) → EndsSum rest
  product before tokens := ∀ x rest, readProduct endColumn before tokens = .ok (x, rest) →
    ∀ t ∈ rest.head?, multiplicative? t.token = none
  productTail left tokens := ∀ x rest, readProductTail endColumn left tokens = .ok (x, rest) →
    ∀ t ∈ rest.head?, multiplicative? t.token = none
  factor _ _ := True
  group _ _ := True

theorem isOperator_eq_false {token : Token} (hadd : additive? token = none)
    (hmul : multiplicative? token = none) : token.isOperator = false := by
  cases token with
  | operator op =>
    cases op with
    | add | sub => cases hadd
    | mul | div => cases hmul
  | number v => rfl
  | ident name => rfl
  | opening => rfl
  | closing => rfl

theorem ending_inductive (endColumn : Nat) : (ending endColumn).Inductive endColumn where
  sum before tokens hproduct htail x rest hx := by
    rw [readSum_eq, bind_eq_ok] at hx
    obtain ⟨⟨y, middle⟩, hy, hx⟩ := hx
    exact htail y middle hy (hproduct y middle hy) x rest hx
  sumTail_nil left _ x rest hx := by
    rw [readSumTail_nil] at hx
    cases hx
    rintro t ⟨⟩
  sumTail_stop left t rest hop hmul x more hx := by
    rw [readSumTail_stop hop] at hx
    cases hx
    rintro u ⟨⟩
    exact isOperator_eq_false hop (hmul t rfl)
  sumTail_step left t rest op hop hproduct htail _ x more hx := by
    rw [readSumTail_step hop, bind_eq_ok] at hx
    obtain ⟨⟨y, middle⟩, hy, hx⟩ := hx
    exact htail y middle hy (hproduct y middle hy) x more hx
  product before tokens _ htail x rest hx := by
    rw [readProduct_eq, bind_eq_ok] at hx
    obtain ⟨⟨y, middle⟩, hy, hx⟩ := hx
    exact htail y middle hy x rest hx
  productTail_nil left x rest hx := by
    rw [readProductTail_nil] at hx
    cases hx
    rintro t ⟨⟩
  productTail_stop left t rest hop x more hx := by
    rw [readProductTail_stop hop] at hx
    cases hx
    rintro u ⟨⟩
    exact hop
  productTail_step left t rest op hop _ htail x more hx := by
    rw [readProductTail_step hop, bind_eq_ok] at hx
    obtain ⟨⟨y, middle⟩, hy, hx⟩ := hx
    exact htail y middle hy x more hx
  factor_nil _ := trivial
  factor_number _ _ _ _ := trivial
  factor_minus _ _ _ _ := trivial
  factor_plus _ _ _ _ := trivial
  factor_operator _ _ _ _ _ := trivial
  factor_closing _ _ _ := trivial
  factor_opening _ _ _ _ := trivial
  factor_unknown _ _ _ _ _ _ := trivial
  factor_call _ _ _ _ _ _ _ _ := trivial
  factor_ident _ _ _ _ _ := trivial
  group _ _ _ := trivial

theorem endsSum_of_readSum {endColumn : Nat} {before : Option PlacedToken} {x : Expr}
    (h : readSum endColumn before tokens = .ok (x, rest)) : EndsSum rest :=
  (ending_inductive endColumn).read_induct before tokens x rest h

/-- What comes after an operand and is neither an operator nor a closing parenthesis begins
another one. -/
theorem startsOperand_of_endsSum {t : PlacedToken} (h : EndsSum (t :: rest))
    (hclosing : t.token ≠ .closing) : t.token.startsOperand = true := by
  have ht := h t rfl
  cases htoken : t.token with
  | number v => rfl
  | ident name => rfl
  | opening => rfl
  | operator op =>
    rw [htoken] at ht
    cases ht
  | closing => exact absurd htoken hclosing

/-! ## The readers -/

theorem explains_readClosing {bracket : PlacedToken} (hbracket : bracket.token = .opening)
    {x : Expr} (hsum : IsSum (kinds tokens) x) (hrest : EndsSum rest) :
    Explains (used ++ bracket :: (tokens ++ rest)) (readClosing bracket.column (x, rest)) := by
  obtain ⟨token, column⟩ := bracket
  cases hbracket
  obtain ⟨hbalanced, front, last, hfront, hlast⟩ := hsum.isOperand
  cases rest with
  | nil =>
    rw [List.append_nil]
    exact explains_failAt (.unclosed hbalanced.not_closedIn fun _ _ => hbalanced.closedIn)
  | cons t rest =>
    by_cases hclosing : t.token = .closing
    · obtain ⟨token, closeColumn⟩ := t
      cases hclosing
      exact explains_ok
    · have hfail : readClosing column (x, t :: rest) =
          failAt (.expectedClosing t.token) t.column := by
        unfold readClosing
        dsimp only
        split
        · cases ‹t :: rest = []›
        · next heq =>
          cases heq
          exact absurd rfl hclosing
        · next heq =>
          cases heq
          rfl
      have hdiagnosis : Diagnosis (kinds (used ++ ⟨.opening, column⟩ :: tokens)) t.token
          (kinds rest) (.expectedClosing t.token)
          (ParseError.Cause.expectedClosing t.token).message := by
        have hkinds : kinds (used ++ ⟨.opening, column⟩ :: tokens) =
            (kinds used ++ .opening :: front) ++ [last] := by
          rw [kinds_append, List.append_assoc, List.cons_append, ← hfront]
          rfl
        rw [hkinds]
        exact .expectedClosing hlast (startsOperand_of_endsSum hrest hclosing)
      rw [hfail, ← List.cons_append, ← List.append_assoc]
      exact explains_failAt hdiagnosis

/-- What each reader says if it fails: whatever tokens are used before, it names one of them or one
of those that it is given. -/
def naming (endColumn : Nat) : Motive where
  sum before tokens := ∀ used, before = used.getLast? → Awaits used → used ++ tokens ≠ [] →
    Explains (used ++ tokens) (readSum endColumn before tokens)
  sumTail left tokens := ∀ used, Explains (used ++ tokens) (readSumTail endColumn left tokens)
  product before tokens := ∀ used, before = used.getLast? → Awaits used → used ++ tokens ≠ [] →
    Explains (used ++ tokens) (readProduct endColumn before tokens)
  productTail left tokens := ∀ used,
    Explains (used ++ tokens) (readProductTail endColumn left tokens)
  factor before tokens := ∀ used, before = used.getLast? → Awaits used → used ++ tokens ≠ [] →
    Explains (used ++ tokens) (readFactor endColumn before tokens)
  group bracket tokens := bracket.token = .opening → ∀ used,
    Explains (used ++ bracket :: tokens) (readGroup endColumn bracket tokens)

/-- An operand after a token that awaits one, put back among all the tokens. -/
theorem explains_after {t : PlacedToken} {r : Reading} (ht : t.token.awaitsOperand = true)
    (h : ∀ used, some t = used.getLast? → Awaits used → used ++ rest ≠ [] →
      Explains (used ++ rest) r) (used : List PlacedToken) : Explains (used ++ t :: rest) r := by
  rw [List.append_cons]
  exact h _ List.getLast?_concat.symm (awaits_concat ht) (by simp)

theorem naming_inductive (endColumn : Nat) : (naming endColumn).Inductive endColumn where
  sum before tokens hproduct htail used hbefore hawaits hne := by
    refine .of_eq readSum_eq ((hproduct used hbefore hawaits hne).bind fun x rest hx => ?_)
    obtain ⟨more, rfl, -⟩ := finds_readProduct endColumn before tokens x rest hx
    rw [← List.append_assoc]
    exact htail x rest hx _
  sumTail_nil left used := .of_eq readSumTail_nil explains_ok
  sumTail_stop left t rest hop used := .of_eq (readSumTail_stop hop) explains_ok
  sumTail_step left t rest op hop hproduct htail used := by
    have ht : t.token.awaitsOperand = true := by
      rw [(additive?_eq_some hop).1]
      rfl
    refine .of_eq (readSumTail_step hop)
      ((explains_after ht hproduct used).bind fun x more hx => ?_)
    obtain ⟨operand, rfl, -⟩ := finds_readProduct endColumn (some t) rest x more hx
    rw [← List.cons_append, ← List.append_assoc]
    exact htail x more hx _
  product before tokens hfactor htail used hbefore hawaits hne := by
    refine .of_eq readProduct_eq ((hfactor used hbefore hawaits hne).bind fun x rest hx => ?_)
    obtain ⟨more, rfl, -⟩ := finds_readFactor endColumn before tokens x rest hx
    rw [← List.append_assoc]
    exact htail x rest hx _
  productTail_nil left used := .of_eq readProductTail_nil explains_ok
  productTail_stop left t rest hop used := .of_eq (readProductTail_stop hop) explains_ok
  productTail_step left t rest op hop hfactor htail used := by
    have ht : t.token.awaitsOperand = true := by
      rw [(multiplicative?_eq_some hop).1]
      rfl
    refine .of_eq (readProductTail_step hop)
      ((explains_after ht hfactor used).bind fun x more hx => ?_)
    obtain ⟨operand, rfl, -⟩ := finds_readFactor endColumn (some t) rest x more hx
    rw [← List.cons_append, ← List.append_assoc]
    exact htail x more hx _
  factor_nil before used hbefore hawaits hne := by
    subst hbefore
    rw [List.append_nil] at hne ⊢
    exact .of_eq readFactor_nil (explains_missingAtEnd hawaits hne)
  factor_number before v column rest used _ _ _ := .of_eq readFactor_number explains_ok
  factor_minus before column rest hfactor used _ _ _ :=
    .of_eq readFactor_minus (.map (explains_after rfl hfactor used))
  factor_plus before column rest hfactor used _ _ _ :=
    .of_eq readFactor_plus (explains_after rfl hfactor used)
  factor_operator before op column rest hop used _ hawaits _ := by
    have hop' : op = .mul ∨ op = .div := by cases op <;> simp [multiplicative?] at hop ⊢
    exact .of_eq (readFactor_operator hop) (explains_failAt (.nothingLeft hop' hawaits.kinds))
  factor_closing before column rest used hbefore hawaits _ := by
    subst hbefore
    exact .of_eq readFactor_closing (explains_missingAtClosing hawaits)
  factor_opening before column rest hgroup used _ _ _ :=
    .of_eq readFactor_opening (hgroup rfl used)
  factor_unknown before name column openColumn rest hf used _ _ _ :=
    .of_eq (readFactor_unknown hf) (explains_failAt (.unknownFunction hf))
  factor_call before name column openColumn rest f hf hgroup used _ _ _ := by
    rw [List.append_cons]
    exact .of_eq (readFactor_call hf) (.map (f := fun x => .call name [x]) (hgroup rfl _))
  factor_ident before name column rest hend used _ _ _ := .of_eq (readFactor_ident hend) explains_ok
  group bracket tokens hsum hbracket used := by
    have ht : bracket.token.awaitsOperand = true := by
      rw [hbracket]
      rfl
    refine .of_eq readGroup_eq ((explains_after ht hsum used).bind fun x rest hx => ?_)
    obtain ⟨inner, rfl, hinner⟩ := finds_readSum endColumn (some bracket) tokens x rest hx
    exact explains_readClosing hbracket hinner (endsSum_of_readSum hx)

theorem explains_readEnd {x : Expr} (hsum : IsSum (kinds tokens) x) (hrest : EndsSum rest) :
    Explains (tokens ++ rest) (readEnd (x, rest)) := by
  obtain ⟨hbalanced, front, last, hfront, hlast⟩ := hsum.isOperand
  rcases rest with _ | ⟨⟨token, column⟩, rest⟩
  · exact explains_ok
  · unfold readEnd
    dsimp only
    split
    · next hclosing =>
      cases hclosing
      exact explains_failAt (.unmatched hbalanced.not_openedIn fun _ _ => hbalanced.openedIn)
    · next hclosing =>
      refine explains_failAt ?_
      rw [hfront]
      exact .unexpected hlast (startsOperand_of_endsSum hrest hclosing)

/-- A side that has tokens but is no expression: the error names one of them. -/
theorem explains_ofTokens (endColumn : Nat) (h : tokens ≠ []) :
    Explains tokens (ofTokens endColumn tokens) := by
  refine .of_eq ofTokens_eq (.bind ?_ fun x rest hx => ?_)
  · exact (naming_inductive endColumn).read_induct none tokens [] rfl awaits_nil h
  · obtain ⟨used, rfl, hsum⟩ := finds_readSum endColumn none tokens x rest hx
    exact explains_readEnd hsum (endsSum_of_readSum hx)

/-! ## Sides -/

/-- A token among those of pieces is that of one piece. -/
theorem exists_of_placed_eq_append {column : Nat} {pieces : List Piece} {t : PlacedToken}
    (h : placed column pieces = before ++ t :: after) :
    ∃ front word back, pieces = front ++ .lexeme word t.token :: back ∧
      kinds before = front.filterMap Piece.token? ∧ kinds after = back.filterMap Piece.token? ∧
      t.column = column + (spelled front).length := by
  induction pieces generalizing column before with
  | nil => simp [placed] at h
  | cons piece pieces ih =>
    cases piece with
    | blank c =>
      obtain ⟨front, word, back, rfl, hbefore, hafter, hcolumn⟩ := ih h
      refine ⟨.blank c :: front, word, back, rfl, hbefore, hafter, ?_⟩
      rw [hcolumn, Nat.add_assoc, Nat.add_comm 1]
      rfl
    | lexeme word token =>
      rw [placed] at h
      cases before with
      | nil =>
        obtain ⟨rfl, rfl⟩ := List.cons.inj h
        exact ⟨[], word, pieces, rfl, rfl, map_token_placed _ _, rfl⟩
      | cons u before =>
        obtain ⟨rfl, htail⟩ := List.cons.inj h
        obtain ⟨front, other, back, rfl, hbefore, hafter, hcolumn⟩ := ih htail
        refine ⟨.lexeme word token :: front, other, back, rfl, ?_, hafter, ?_⟩
        · exact congrArg (token :: ·) hbefore
        · rw [hcolumn, Nat.add_assoc, ← List.length_append]
          rfl

/-- What fails to be a side is told so of that side. -/
theorem blames_of_side {start text : Text} {e : ParseError}
    (h : side start.length text = .error e) : Blames start text e e.cause.message := by
  have hcolumn (pieces : List Piece) : start.length + 1 + (spelled pieces).length =
      (start ++ spelled pieces).length + 1 := by
    rw [List.length_append, Nat.add_right_comm]
  unfold side at h
  split at h
  · next htokens =>
    cases h
    obtain ⟨pieces, c, rest, lexeme, cause, hpieces, hc, hreads, rfl⟩ :=
      tokenize_eq_error_iff.1 htokens
    rw [hcolumn]
    cases hreads with
    | foreign hlongest hforeign => exact .invalidNumber hpieces hc (.foreign hlongest hforeign)
    | stray hnumber hname hsymbol =>
      exact .unexpectedCharacter hpieces hc (.stray hnumber hname hsymbol)
  · next htokens =>
    cases h
    obtain ⟨pieces, hpieces, hnil⟩ := tokenize_eq_ok_iff.1 htokens
    exact .emptySide hpieces (by rw [← map_token_placed, ← hnil]; rfl)
  · next tokens hne htokens =>
    obtain ⟨pieces, hpieces, rfl⟩ := tokenize_eq_ok_iff.1 htokens
    obtain ⟨cause, column⟩ := e
    obtain ⟨before, t, after, hplaced, hdiagnosis, rfl⟩ := explains_ofTokens _ hne _ h
    obtain ⟨front, word, back, rfl, hfront, hback, ht⟩ := exists_of_placed_eq_append hplaced
    rw [hfront, hback] at hdiagnosis
    rw [ht, hcolumn]
    exact .token hpieces hdiagnosis

theorem Blames.exists_column {start text : Text} {e : ParseError} {report : String}
    (h : Blames start text e report) : ∃ column, e.column = some column := by
  cases h <;> exact ⟨_, rfl⟩

theorem blames_of_sides {start : Text} {parts : List Text} {e : ParseError}
    (h : sides start.length parts = .error e) :
    ∃ earlier part later, parts = earlier ++ part :: later ∧
      (∃ xs, sides start.length earlier = .ok xs) ∧
      Blames (start ++ earlier.flatMap (· ++ ['='])) part e e.cause.message := by
  induction parts generalizing start with
  | nil => cases h
  | cons part parts ih =>
    unfold sides at h
    split at h
    · next hside =>
      cases h
      refine ⟨[], part, parts, rfl, ⟨[], rfl⟩, ?_⟩
      rw [List.flatMap_nil, List.append_nil]
      exact blames_of_side hside
    · next x hside =>
      have hlength : start.length + part.length + 1 = (start ++ (part ++ ['='])).length := by
        simp only [List.length_append, List.length_cons, List.length_nil]
        omega
      split at h
      · next hsides =>
        cases h
        rw [hlength] at hsides
        obtain ⟨earlier, other, later, rfl, ⟨xs, hxs⟩, hblames⟩ := ih hsides
        refine ⟨part :: earlier, other, later, rfl, ⟨x :: xs, ?_⟩, ?_⟩
        · rw [sides, hside, hlength]
          dsimp only
          rw [hxs]
        · rw [List.flatMap_cons, ← List.append_assoc]
          exact hblames
      · cases h

end Parse

open Parse in
/-- A text that is no equation is told what is wrong with the first of its sides that is no
expression. The error has a column of the whole text, which its message begins with: that of the
side, if the side has no tokens, that of the first character of the side that no token begins with,
or that of a token whose place in the side is as the rest of the message says. -/
theorem Equation.parse_error_truthful {text : Text} {e : ParseError}
    (h : Equation.parse text = .error e) :
    ∃ earlier side later rest column report, text.split '=' = earlier ++ side :: later ∧
      text = earlier.flatMap (· ++ ['=']) ++ side ++ rest ∧
      (∃ xs, Parse.sides 0 earlier = .ok xs) ∧ e.column = some column ∧
      e.message = "Parse error at column " ++ toString column ++ ": " ++ report ∧
      Blames (earlier.flatMap (· ++ ['='])) side e report := by
  unfold Equation.parse at h
  split at h
  · next hsides =>
    cases h
    obtain ⟨earlier, side, later, hsplit, hxs, hblames⟩ := @blames_of_sides [] _ _ hsides
    obtain ⟨rest, hrest⟩ := Text.eq_append_of_split hsplit
    obtain ⟨column, hcolumn⟩ := hblames.exists_column
    refine ⟨earlier, side, later, rest, column, _, hsplit, hrest, hxs, hcolumn, ?_, hblames⟩
    rw [ParseError.message, hcolumn]
  · cases h

open Parse in
/-- The parenthesis of the call has a partner, the one in front of the call has none. -/
theorem Equation.parse_error_truthful_unclosed :
    let text : Text := "y=(sin(a)".toList
    Equation.parse text = .error ⟨.unclosed, some 3⟩ ∧
    ∃ earlier side later rest column report, text.split '=' = earlier ++ side :: later ∧
      text = earlier.flatMap (· ++ ['=']) ++ side ++ rest ∧
      (∃ xs, Parse.sides 0 earlier = .ok xs) ∧
      (⟨.unclosed, some 3⟩ : ParseError).column = some column ∧
      (⟨.unclosed, some 3⟩ : ParseError).message =
        "Parse error at column " ++ toString column ++ ": " ++ report ∧
      Blames (earlier.flatMap (· ++ ['='])) side ⟨.unclosed, some 3⟩ report := by
  intro text
  have h : Equation.parse "y=(sin(a)".toList = .error ⟨.unclosed, some 3⟩ := by cbv
  exact ⟨h, Equation.parse_error_truthful h⟩

end MathMarkup
