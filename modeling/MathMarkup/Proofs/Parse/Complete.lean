import Mathlib
import MathMarkup.Proofs.Parse.Sound

/-!
# Derivations are read

On the tokens of a derivation the readers find its tree, whatever tokens come next, as long as these
do not go on with what was read. Reading is a function, so no tokens have two trees.
-/
namespace MathMarkup.Parse

open Grammar

/-- No factor follows: neither an argument nor a multiplication comes next. -/
def EndsProduct (tokens : List PlacedToken) : Prop :=
  EndsName tokens ∧ ∀ t ∈ tokens.head?, multiplicative? t.token = none

theorem endsName_operator {op : BinaryOp} {column : Nat} {rest : List PlacedToken} :
    EndsName (⟨.operator op, column⟩ :: rest) := by
  rintro t ⟨⟩
  nofun

theorem endsProduct_additive {op : BinaryOp} {column : Nat} {rest : List PlacedToken}
    (h : op.precedence = 1) : EndsProduct (⟨.operator op, column⟩ :: rest) := by
  refine ⟨endsName_operator, ?_⟩
  rintro t ⟨⟩
  cases op with
  | add | sub => rfl
  | mul | div => cases h

theorem endsProduct_closing {column : Nat} {rest : List PlacedToken} :
    EndsProduct (⟨.closing, column⟩ :: rest) := by
  constructor
  · rintro t ⟨⟩
    nofun
  · rintro t ⟨⟩
    rfl

theorem endsProduct_nil : EndsProduct [] := ⟨nofun, nofun⟩

theorem additive?_of_precedence {op : BinaryOp} (h : op.precedence = 1) :
    additive? (.operator op) = some op := by
  cases op <;> first | rfl | cases h

theorem multiplicative?_of_precedence {op : BinaryOp} (h : op.precedence = 2) :
    multiplicative? (.operator op) = some op := by
  cases op <;> first | rfl | cases h

theorem readProductTail_ends {endColumn : Nat} {x : Expr} {rest : List PlacedToken}
    (h : EndsProduct rest) : readProductTail endColumn x rest = .ok (x, rest) := by
  cases rest with
  | nil => exact readProductTail_nil
  | cons t rest => exact readProductTail_stop (h.2 t rfl)

theorem readSumTail_closing {endColumn column : Nat} {x : Expr} {rest : List PlacedToken} :
    readSumTail endColumn x (⟨.closing, column⟩ :: rest) = .ok (x, ⟨.closing, column⟩ :: rest) :=
  readSumTail_stop rfl

/-- Tokens of the kinds `ts ++ operator op :: us` are tokens of these three parts. -/
theorem kinds_eq_append_cons {tokens : List PlacedToken} {ts us : List Token} {token : Token}
    (h : kinds tokens = ts ++ token :: us) :
    ∃ left column right, tokens = left ++ ⟨token, column⟩ :: right ∧ kinds left = ts ∧
      kinds right = us := by
  obtain ⟨left, tail, rfl, hleft, htail⟩ := List.map_eq_append_iff.1 h
  obtain ⟨⟨_, column⟩, right, rfl, rfl, hright⟩ := List.map_eq_cons_iff.1 htail
  exact ⟨left, column, right, rfl, hleft, hright⟩

theorem kinds_eq_cons {tokens : List PlacedToken} {us : List Token} {token : Token}
    (h : kinds tokens = token :: us) :
    ∃ column right, tokens = ⟨token, column⟩ :: right ∧ kinds right = us := by
  obtain ⟨⟨_, column⟩, right, rfl, rfl, hright⟩ := List.map_eq_cons_iff.1 h
  exact ⟨column, right, rfl, hright⟩

variable {endColumn : Nat}

/-- A sum that is read as `x` whatever follows is so between parentheses. -/
theorem readGroup_of_readSum {ts : List Token} {x : Expr}
    (h : ∀ (tokens rest : List PlacedToken) (before : Option PlacedToken), kinds tokens = ts →
      EndsProduct rest → readSum endColumn before (tokens ++ rest) = readSumTail endColumn x rest)
    {tokens rest : List PlacedToken} {bracket : PlacedToken}
    (hk : kinds tokens = ts ++ [.closing]) :
    readGroup endColumn bracket (tokens ++ rest) = .ok (x, rest) := by
  obtain ⟨inner, column, right, rfl, hinner, hright⟩ := kinds_eq_append_cons hk
  cases List.map_eq_nil_iff.1 hright
  rw [List.append_assoc, List.cons_append, List.nil_append, readGroup_eq,
    h inner _ _ hinner endsProduct_closing, readSumTail_closing]
  rfl

mutual

/-- The reader of a sum reads a derived sum and goes on as after it. -/
theorem readSum_of_isSum {ts : List Token} {x : Expr} :
    IsSum ts x → ∀ (tokens rest : List PlacedToken) (before : Option PlacedToken),
      kinds tokens = ts → EndsProduct rest →
      readSum endColumn before (tokens ++ rest) = readSumTail endColumn x rest
  | .product h, tokens, rest, before, hk, hrest => by
    rw [readSum_eq, readProduct_of_isProduct h tokens rest before hk hrest.1,
      readProductTail_ends hrest]
    rfl
  | .step hs hop hp, tokens, rest, before, hk, hrest => by
    obtain ⟨left, column, right, rfl, hleft, hright⟩ := kinds_eq_append_cons hk
    rw [List.append_assoc, List.cons_append,
      readSum_of_isSum hs left _ before hleft (endsProduct_additive hop),
      readSumTail_step (additive?_of_precedence hop),
      readProduct_of_isProduct hp right rest _ hright hrest.1, readProductTail_ends hrest]
    rfl

theorem readProduct_of_isProduct {ts : List Token} {x : Expr} :
    IsProduct ts x → ∀ (tokens rest : List PlacedToken) (before : Option PlacedToken),
      kinds tokens = ts → EndsName rest →
      readProduct endColumn before (tokens ++ rest) = readProductTail endColumn x rest
  | .factor h, tokens, rest, before, hk, hrest => by
    rw [readProduct_eq, readFactor_of_isFactor h tokens rest before hk hrest]
    rfl
  | .step hp hop hf, tokens, rest, before, hk, hrest => by
    obtain ⟨left, column, right, rfl, hleft, hright⟩ := kinds_eq_append_cons hk
    rw [List.append_assoc, List.cons_append,
      readProduct_of_isProduct hp left _ before hleft endsName_operator,
      readProductTail_step (multiplicative?_of_precedence hop),
      readFactor_of_isFactor hf right rest _ hright hrest]
    rfl

theorem readFactor_of_isFactor {ts : List Token} {x : Expr} :
    IsFactor ts x → ∀ (tokens rest : List PlacedToken) (before : Option PlacedToken),
      kinds tokens = ts → EndsName rest →
      readFactor endColumn before (tokens ++ rest) = .ok (x, rest)
  | .minus h, tokens, rest, before, hk, hrest => by
    obtain ⟨column, right, rfl, hright⟩ := kinds_eq_cons hk
    rw [List.cons_append, readFactor_minus, readFactor_of_isFactor h right rest _ hright hrest]
    rfl
  | .plus h, tokens, rest, before, hk, hrest => by
    obtain ⟨column, right, rfl, hright⟩ := kinds_eq_cons hk
    rw [List.cons_append, readFactor_plus, readFactor_of_isFactor h right rest _ hright hrest]
  | .number v, tokens, rest, before, hk, hrest => by
    obtain ⟨column, right, rfl, hright⟩ := kinds_eq_cons hk
    cases List.map_eq_nil_iff.1 hright
    exact readFactor_number
  | .ident name, tokens, rest, before, hk, hrest => by
    obtain ⟨column, right, rfl, hright⟩ := kinds_eq_cons hk
    cases List.map_eq_nil_iff.1 hright
    exact readFactor_ident hrest
  | .call f h, tokens, rest, before, hk, hrest => by
    obtain ⟨column, tail, rfl, htail⟩ := kinds_eq_cons hk
    obtain ⟨openColumn, inner, rfl, hinner⟩ := kinds_eq_cons htail
    rw [List.cons_append, List.cons_append, readFactor_call (ElementaryFunction.ofName?_name f),
      readGroup_of_readSum (readSum_of_isSum h) hinner]
    rfl
  | .group h, tokens, rest, before, hk, hrest => by
    obtain ⟨column, inner, rfl, hinner⟩ := kinds_eq_cons hk
    rw [List.cons_append, readFactor_opening, readGroup_of_readSum (readSum_of_isSum h) hinner]

end

end MathMarkup.Parse
