import Mathlib
import MathMarkup.Expr.Parse

/-!
# The readers without their bounds

The readers of the grammar return proofs that tokens were used up. Here the same readers return the
tokens alone; each has one equation over the others, and `read_induct` is the induction that all
properties of reading use: what is left to read only gets shorter.
-/
namespace MathMarkup.Parse

/-- What a reader finds: an expression and the tokens after it. -/
abbrev Reading := Except ParseError (Expr × List PlacedToken)

/-- Forgets the bound on the tokens that are left. -/
def bare {p : List PlacedToken → Prop}
    (r : Except ParseError (Expr × { rest : List PlacedToken // p rest })) : Reading :=
  r.map fun found => (found.1, found.2.1)

theorem bind_eq_ok {ε α β : Type} {r : Except ε α} {f : α → Except ε β} {b : β} :
    r.bind f = .ok b ↔ ∃ a, r = .ok a ∧ f a = .ok b := by
  cases r with
  | error e => simp [Except.bind]
  | ok a => simp [Except.bind]

theorem map_eq_ok {ε α β : Type} {r : Except ε α} {f : α → β} {b : β} :
    r.map f = .ok b ↔ ∃ a, r = .ok a ∧ f a = b := by
  cases r with
  | error e => simp [Except.map]
  | ok a => simp [Except.map]

section Readers

variable (endColumn : Nat)

def readSum (before : Option PlacedToken) (tokens : List PlacedToken) : Reading :=
  bare (sum endColumn before tokens)

def readSumTail (left : Expr) (tokens : List PlacedToken) : Reading :=
  bare (sumTail endColumn left tokens)

def readProduct (before : Option PlacedToken) (tokens : List PlacedToken) : Reading :=
  bare (product endColumn before tokens)

def readProductTail (left : Expr) (tokens : List PlacedToken) : Reading :=
  bare (productTail endColumn left tokens)

def readFactor (before : Option PlacedToken) (tokens : List PlacedToken) : Reading :=
  bare (factor endColumn before tokens)

def readGroup (bracket : PlacedToken) (tokens : List PlacedToken) : Reading :=
  bare (group endColumn bracket tokens)

end Readers

/-- Takes the closing parenthesis that belongs to an opening one, after what stands in between. -/
def readClosing (openColumn : Nat) (found : Expr × List PlacedToken) : Reading :=
  match found.2 with
  | [] => failAt .unclosed openColumn
  | ⟨.closing, _⟩ :: rest => .ok (found.1, rest)
  | t :: _ => failAt (.expectedClosing t.token) t.column

/-! ## One equation for each reader -/

variable {endColumn : Nat} {before : Option PlacedToken} {left : Expr} {t : PlacedToken}
  {tokens rest : List PlacedToken}

theorem readSum_eq : readSum endColumn before tokens =
    (readProduct endColumn before tokens).bind fun found =>
      readSumTail endColumn found.1 found.2 := by
  rw [readSum, readProduct, sum]
  cases product endColumn before tokens with
  | error e => rfl
  | ok found =>
    dsimp only [bare, Except.map, Except.bind, readSumTail]
    cases sumTail endColumn found.1 found.2.1 <;> rfl

theorem readProduct_eq : readProduct endColumn before tokens =
    (readFactor endColumn before tokens).bind fun found =>
      readProductTail endColumn found.1 found.2 := by
  rw [readProduct, readFactor, product]
  cases factor endColumn before tokens with
  | error e => rfl
  | ok found =>
    dsimp only [bare, Except.map, Except.bind, readProductTail]
    cases productTail endColumn found.1 found.2.1 <;> rfl

theorem readSumTail_nil : readSumTail endColumn left [] = .ok (left, []) := by
  rw [readSumTail, sumTail]
  rfl

theorem readSumTail_stop (h : additive? t.token = none) :
    readSumTail endColumn left (t :: rest) = .ok (left, t :: rest) := by
  rw [readSumTail, sumTail, h]
  rfl

theorem readSumTail_step {op : BinaryOp} (h : additive? t.token = some op) :
    readSumTail endColumn left (t :: rest) =
      (readProduct endColumn (some t) rest).bind fun found =>
        readSumTail endColumn (.binary op left found.1) found.2 := by
  rw [readSumTail, readProduct, sumTail, h]
  dsimp only
  cases product endColumn (some t) rest with
  | error e => rfl
  | ok found =>
    dsimp only [bare, Except.map, Except.bind, readSumTail]
    cases sumTail endColumn (.binary op left found.1) found.2.1 <;> rfl

theorem readProductTail_nil : readProductTail endColumn left [] = .ok (left, []) := by
  rw [readProductTail, productTail]
  rfl

theorem readProductTail_stop (h : multiplicative? t.token = none) :
    readProductTail endColumn left (t :: rest) = .ok (left, t :: rest) := by
  rw [readProductTail, productTail, h]
  rfl

theorem readProductTail_step {op : BinaryOp} (h : multiplicative? t.token = some op) :
    readProductTail endColumn left (t :: rest) =
      (readFactor endColumn (some t) rest).bind fun found =>
        readProductTail endColumn (.binary op left found.1) found.2 := by
  rw [readProductTail, readFactor, productTail, h]
  dsimp only
  cases factor endColumn (some t) rest with
  | error e => rfl
  | ok found =>
    dsimp only [bare, Except.map, Except.bind, readProductTail]
    cases productTail endColumn (.binary op left found.1) found.2.1 <;> rfl

theorem readGroup_eq {bracket : PlacedToken} : readGroup endColumn bracket tokens =
    (readSum endColumn (some bracket) tokens).bind (readClosing bracket.column) := by
  rw [readGroup, readSum, group]
  cases sum endColumn (some bracket) tokens with
  | error e => rfl
  | ok found =>
    obtain ⟨x, rest, hrest⟩ := found
    rcases rest with _ | ⟨⟨token, column⟩, rest⟩
    · rfl
    · cases token <;> rfl

/-- A whole side, once its sum is read: no token may be left. -/
def readEnd (found : Expr × List PlacedToken) : Except ParseError Expr :=
  match found.2 with
  | [] => .ok found.1
  | t :: _ => if t.token = .closing then failAt .unmatched t.column
    else failAt (.unexpected t.token) t.column

theorem ofTokens_eq : ofTokens endColumn tokens =
    (readSum endColumn none tokens).bind readEnd := by
  rw [ofTokens, readSum]
  cases sum endColumn none tokens with
  | error e => rfl
  | ok found =>
    obtain ⟨x, rest, hrest⟩ := found
    cases rest <;> rfl

/-! ## A factor, by its first token -/

theorem readFactor_nil : readFactor endColumn before [] = missingAtEnd endColumn before := by
  rw [readFactor, factor]
  unfold missingAtEnd
  split <;> rfl

variable {column : Nat}

theorem readFactor_number {v : Binary64} :
    readFactor endColumn before (⟨.number v, column⟩ :: rest) = .ok (.number v, rest) := by
  rw [readFactor, factor]
  rfl

theorem readFactor_minus : readFactor endColumn before (⟨.operator .sub, column⟩ :: rest) =
    (readFactor endColumn (some ⟨.operator .sub, column⟩) rest).map fun found =>
      (.neg found.1, found.2) := by
  rw [readFactor, readFactor, factor]
  dsimp only
  cases factor endColumn (some ⟨.operator .sub, column⟩) rest <;> rfl

theorem readFactor_plus : readFactor endColumn before (⟨.operator .add, column⟩ :: rest) =
    readFactor endColumn (some ⟨.operator .add, column⟩) rest := by
  rw [readFactor, readFactor, factor]
  dsimp only
  cases factor endColumn (some ⟨.operator .add, column⟩) rest <;> rfl

theorem readFactor_operator {op : BinaryOp} (h : multiplicative? (.operator op) = some op) :
    readFactor endColumn before (⟨.operator op, column⟩ :: rest) =
      failAt (.missingOperand op) column := by
  rw [readFactor, factor]
  cases op with
  | add | sub => cases h
  | mul | div => rfl

theorem readFactor_closing : readFactor endColumn before (⟨.closing, column⟩ :: rest) =
    missingAtClosing column before := by
  rw [readFactor, factor]
  dsimp only
  unfold missingAtClosing
  split <;> rfl

theorem readFactor_opening : readFactor endColumn before (⟨.opening, column⟩ :: rest) =
    readGroup endColumn ⟨.opening, column⟩ rest := by
  rw [readFactor, readGroup, factor]
  dsimp only
  cases group endColumn ⟨.opening, column⟩ rest <;> rfl

theorem readFactor_unknown {name : Text} {openColumn : Nat}
    (h : ElementaryFunction.ofName? name = none) :
    readFactor endColumn before (⟨.ident name, column⟩ :: ⟨.opening, openColumn⟩ :: rest) =
      failAt (.unknownFunction name) column := by
  rw [readFactor, factor]
  dsimp only
  rw [h]
  rfl

theorem readFactor_call {name : Text} {openColumn : Nat} {f : ElementaryFunction}
    (h : ElementaryFunction.ofName? name = some f) :
    readFactor endColumn before (⟨.ident name, column⟩ :: ⟨.opening, openColumn⟩ :: rest) =
      (readGroup endColumn ⟨.opening, openColumn⟩ rest).map fun found =>
        (.call name [found.1], found.2) := by
  rw [readFactor, readGroup, factor]
  dsimp only
  rw [h]
  dsimp only
  cases group endColumn ⟨.opening, openColumn⟩ rest <;> rfl

/-- No opening parenthesis comes next, so a name just read is not that of a call. -/
def EndsName (tokens : List PlacedToken) : Prop := ∀ t ∈ tokens.head?, t.token ≠ .opening

theorem readFactor_ident {name : Text} (h : EndsName rest) :
    readFactor endColumn before (⟨.ident name, column⟩ :: rest) = .ok (.ident name, rest) := by
  rw [readFactor, factor]
  dsimp only
  split
  · exact absurd rfl (h _ rfl)
  · rfl

/-! ## Induction over reading -/

theorem bound_of_bare {p : List PlacedToken → Prop}
    {r : Except ParseError (Expr × { rest : List PlacedToken // p rest })} {x : Expr}
    (h : bare r = .ok (x, rest)) : p rest := by
  cases r with
  | error e => cases h
  | ok found =>
    simp only [bare, Except.map, Except.ok.injEq, Prod.mk.injEq] at h
    exact h.2 ▸ found.2.2

theorem length_lt_of_readProduct {x : Expr}
    (h : readProduct endColumn before tokens = .ok (x, rest)) : rest.length < tokens.length :=
  bound_of_bare h

theorem length_lt_of_readFactor {x : Expr}
    (h : readFactor endColumn before tokens = .ok (x, rest)) : rest.length < tokens.length :=
  bound_of_bare h

/-- A property for each reader, of what the reader is given. -/
structure Motive where
  sum : Option PlacedToken → List PlacedToken → Prop
  sumTail : Expr → List PlacedToken → Prop
  product : Option PlacedToken → List PlacedToken → Prop
  productTail : Expr → List PlacedToken → Prop
  factor : Option PlacedToken → List PlacedToken → Prop
  group : PlacedToken → List PlacedToken → Prop

/-- The property passes from the readers that a reader calls to that reader, case by case. -/
structure Motive.Inductive (m : Motive) (endColumn : Nat) : Prop where
  sum : ∀ before tokens, m.product before tokens →
    (∀ x rest, readProduct endColumn before tokens = .ok (x, rest) → m.sumTail x rest) →
    m.sum before tokens
  sumTail_nil : ∀ left, m.sumTail left []
  sumTail_stop : ∀ left t rest, additive? t.token = none → m.sumTail left (t :: rest)
  sumTail_step : ∀ left t rest op, additive? t.token = some op → m.product (some t) rest →
    (∀ x more, readProduct endColumn (some t) rest = .ok (x, more) →
      m.sumTail (.binary op left x) more) → m.sumTail left (t :: rest)
  product : ∀ before tokens, m.factor before tokens →
    (∀ x rest, readFactor endColumn before tokens = .ok (x, rest) → m.productTail x rest) →
    m.product before tokens
  productTail_nil : ∀ left, m.productTail left []
  productTail_stop : ∀ left t rest, multiplicative? t.token = none →
    m.productTail left (t :: rest)
  productTail_step : ∀ left t rest op, multiplicative? t.token = some op →
    m.factor (some t) rest →
    (∀ x more, readFactor endColumn (some t) rest = .ok (x, more) →
      m.productTail (.binary op left x) more) → m.productTail left (t :: rest)
  factor_nil : ∀ before, m.factor before []
  factor_number : ∀ before v column rest, m.factor before (⟨.number v, column⟩ :: rest)
  factor_minus : ∀ before column rest, m.factor (some ⟨.operator .sub, column⟩) rest →
    m.factor before (⟨.operator .sub, column⟩ :: rest)
  factor_plus : ∀ before column rest, m.factor (some ⟨.operator .add, column⟩) rest →
    m.factor before (⟨.operator .add, column⟩ :: rest)
  factor_operator : ∀ before op column rest, multiplicative? (.operator op) = some op →
    m.factor before (⟨.operator op, column⟩ :: rest)
  factor_closing : ∀ before column rest, m.factor before (⟨.closing, column⟩ :: rest)
  factor_opening : ∀ before column rest, m.group ⟨.opening, column⟩ rest →
    m.factor before (⟨.opening, column⟩ :: rest)
  factor_unknown : ∀ before name column openColumn rest,
    ElementaryFunction.ofName? name = none →
    m.factor before (⟨.ident name, column⟩ :: ⟨.opening, openColumn⟩ :: rest)
  factor_call : ∀ before name column openColumn rest f,
    ElementaryFunction.ofName? name = some f → m.group ⟨.opening, openColumn⟩ rest →
    m.factor before (⟨.ident name, column⟩ :: ⟨.opening, openColumn⟩ :: rest)
  factor_ident : ∀ before name column rest, EndsName rest →
    m.factor before (⟨.ident name, column⟩ :: rest)
  group : ∀ bracket tokens, m.sum (some bracket) tokens → m.group bracket tokens

structure Motive.Below (m : Motive) (n : Nat) : Prop where
  sum : ∀ before tokens, tokens.length < n → m.sum before tokens
  sumTail : ∀ left tokens, tokens.length < n → m.sumTail left tokens
  product : ∀ before tokens, tokens.length < n → m.product before tokens
  productTail : ∀ left tokens, tokens.length < n → m.productTail left tokens
  factor : ∀ before tokens, tokens.length < n → m.factor before tokens
  group : ∀ bracket tokens, tokens.length < n → m.group bracket tokens

namespace Motive.Inductive

variable {m : Motive} {n : Nat}

theorem factor_of_below (h : m.Inductive endColumn) (hn : m.Below n) (before : Option PlacedToken)
    (tokens : List PlacedToken) (hlen : tokens.length < n + 1) : m.factor before tokens := by
  rcases tokens with _ | ⟨⟨token, column⟩, rest⟩
  · exact h.factor_nil before
  · have hrest : rest.length < n := Nat.lt_of_succ_lt_succ hlen
    cases token with
    | number v => exact h.factor_number before v column rest
    | operator op =>
      cases op with
      | add => exact h.factor_plus before column rest (hn.factor _ rest hrest)
      | sub => exact h.factor_minus before column rest (hn.factor _ rest hrest)
      | mul | div => exact h.factor_operator before _ column rest rfl
    | opening => exact h.factor_opening before column rest (hn.group _ rest hrest)
    | closing => exact h.factor_closing before column rest
    | ident name =>
      rcases rest with _ | ⟨⟨next, openColumn⟩, inner⟩
      · exact h.factor_ident before name column [] nofun
      · by_cases hnext : next = .opening
        · subst hnext
          have hinner : inner.length < n := Nat.lt_of_succ_lt hrest
          cases hf : ElementaryFunction.ofName? name with
          | none => exact h.factor_unknown before name column openColumn inner hf
          | some f =>
            exact h.factor_call before name column openColumn inner f hf (hn.group _ inner hinner)
        · refine h.factor_ident before name column _ ?_
          rintro t ⟨⟩
          exact hnext

theorem below_succ (h : m.Inductive endColumn) (hn : m.Below n) : m.Below (n + 1) := by
  have hfactor := h.factor_of_below hn
  have hproductTail : ∀ left tokens, tokens.length < n + 1 → m.productTail left tokens := by
    intro left tokens hlen
    cases tokens with
    | nil => exact h.productTail_nil left
    | cons t rest =>
      have hrest : rest.length < n := Nat.lt_of_succ_lt_succ hlen
      cases hop : multiplicative? t.token with
      | none => exact h.productTail_stop left t rest hop
      | some op =>
        exact h.productTail_step left t rest op hop (hn.factor _ rest hrest) fun x more hx =>
          hn.productTail _ more (Nat.lt_trans (length_lt_of_readFactor hx) hrest)
  have hproduct : ∀ before tokens, tokens.length < n + 1 → m.product before tokens :=
    fun before tokens hlen => h.product before tokens (hfactor before tokens hlen) fun x rest hx =>
      hproductTail x rest (Nat.lt_trans (length_lt_of_readFactor hx) hlen)
  have hsumTail : ∀ left tokens, tokens.length < n + 1 → m.sumTail left tokens := by
    intro left tokens hlen
    cases tokens with
    | nil => exact h.sumTail_nil left
    | cons t rest =>
      have hrest : rest.length < n := Nat.lt_of_succ_lt_succ hlen
      cases hop : additive? t.token with
      | none => exact h.sumTail_stop left t rest hop
      | some op =>
        exact h.sumTail_step left t rest op hop (hn.product _ rest hrest) fun x more hx =>
          hn.sumTail _ more (Nat.lt_trans (length_lt_of_readProduct hx) hrest)
  have hsum : ∀ before tokens, tokens.length < n + 1 → m.sum before tokens :=
    fun before tokens hlen => h.sum before tokens (hproduct before tokens hlen) fun x rest hx =>
      hsumTail x rest (Nat.lt_trans (length_lt_of_readProduct hx) hlen)
  exact ⟨hsum, hsumTail, hproduct, hproductTail, hfactor,
    fun bracket tokens hlen => h.group bracket tokens (hsum _ tokens hlen)⟩

theorem below (h : m.Inductive endColumn) (n : Nat) : m.Below n := by
  induction n with
  | zero => exact ⟨nofun, nofun, nofun, nofun, nofun, nofun⟩
  | succ n ih => exact h.below_succ ih

/-- The property of sums holds of every input of an inductive motive. -/
theorem read_induct (h : m.Inductive endColumn) (before : Option PlacedToken)
    (tokens : List PlacedToken) : m.sum before tokens :=
  (h.below (tokens.length + 1)).sum before tokens (Nat.lt_succ_self _)

theorem read_induct_product (h : m.Inductive endColumn) (before : Option PlacedToken)
    (tokens : List PlacedToken) : m.product before tokens :=
  (h.below (tokens.length + 1)).product before tokens (Nat.lt_succ_self _)

theorem read_induct_factor (h : m.Inductive endColumn) (before : Option PlacedToken)
    (tokens : List PlacedToken) : m.factor before tokens :=
  (h.below (tokens.length + 1)).factor before tokens (Nat.lt_succ_self _)

end Motive.Inductive

end MathMarkup.Parse
