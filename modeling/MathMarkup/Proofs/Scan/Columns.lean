import Mathlib
import MathMarkup.Expr.Scan

/-!
# Columns of tokens

Scanning goes on token by token, and where a text starts only moves the columns: the tokens
themselves, and what is wrong with a text, do not depend on it.
-/
namespace MathMarkup

/-! ## One step of scanning -/

section Step

variable {column : Nat} {c : Char} {rest : Text}

theorem scanFrom_nil : scanFrom column [] = .ok [] := by
  rw [scanFrom]

theorem scanFrom_blank (h : Text.isBlank c = true) :
    scanFrom column (c :: rest) = scanFrom (column + 1) rest := by
  rw [scanFrom, if_pos h]

theorem scanFrom_error {cause : ParseError.Cause} (hc : Text.isBlank c = false)
    (h : Token.scan c rest = .error cause) :
    scanFrom column (c :: rest) = .error ⟨cause, some column⟩ := by
  rw [scanFrom, if_neg (by simp [hc])]
  split
  · next hs => rw [h] at hs; cases hs; rfl
  · next hs => rw [h] at hs; cases hs

theorem scanFrom_token {token : Token} {after : Text} (hc : Text.isBlank c = false)
    (h : Token.scan c rest = .ok (token, after)) :
    scanFrom column (c :: rest) =
      (scanFrom (column + (rest.length + 1 - after.length)) after).map (⟨token, column⟩ :: ·) := by
  rw [scanFrom, if_neg (by simp [hc])]
  split
  · next hs => rw [h] at hs; cases hs
  · next hs =>
    rw [h] at hs
    cases hs
    cases scanFrom (column + (rest.length + 1 - after.length)) after <;> rfl

end Step

/-! ## Moving the first column -/

def PlacedToken.shift (k : Nat) (t : PlacedToken) : PlacedToken := { t with column := t.column + k }

def ParseError.shift (k : Nat) (e : ParseError) : ParseError :=
  { e with column := e.column.map (· + k) }

def shiftScan (k : Nat) :
    Except ParseError (List PlacedToken) → Except ParseError (List PlacedToken)
  | .ok tokens => .ok (tokens.map (PlacedToken.shift k))
  | .error e => .error (e.shift k)

theorem scanFrom_add (k column : Nat) (text : Text) :
    scanFrom (column + k) text = shiftScan k (scanFrom column text) := by
  fun_induction scanFrom column text with
  | case1 column => rw [scanFrom_nil]; rfl
  | case2 column c rest hc ih =>
    rw [scanFrom_blank hc, ← ih]
    congr 1
    omega
  | case3 column c rest hc cause h =>
    rw [scanFrom_error (by simpa using hc) h]
    rfl
  | case4 column c rest hc token after h e hs ih =>
    rw [scanFrom_token (by simpa using hc) h, Nat.add_right_comm, ih, hs]
    rfl
  | case5 column c rest hc token after h tokens hs ih =>
    rw [scanFrom_token (by simpa using hc) h, Nat.add_right_comm, ih, hs]
    rfl

theorem tokenize_eq_shiftScan (base : Nat) (text : Text) :
    tokenize base text = shiftScan base (tokenize 0 text) := by
  unfold tokenize
  rw [show base + 1 = 0 + 1 + base by omega, scanFrom_add]

/-- The tokens of a text without their columns. -/
def Token.ofText (text : Text) : Except ParseError (List Token) :=
  (tokenize 0 text).map (List.map PlacedToken.token)

theorem tokenize_of_ofText {text : Text} {ts : List Token} (base : Nat)
    (h : Token.ofText text = .ok ts) :
    ∃ tokens, tokenize base text = .ok tokens ∧ tokens.map PlacedToken.token = ts := by
  unfold Token.ofText at h
  cases htokens : tokenize 0 text with
  | error e =>
    rw [htokens] at h
    cases h
  | ok tokens =>
    rw [htokens] at h
    cases h
    refine ⟨tokens.map (PlacedToken.shift base), by rw [tokenize_eq_shiftScan, htokens]; rfl, ?_⟩
    rw [List.map_map]
    rfl

theorem ofText_of_tokenize {text : Text} {base : Nat} {tokens : List PlacedToken}
    (h : tokenize base text = .ok tokens) :
    Token.ofText text = .ok (tokens.map PlacedToken.token) := by
  unfold Token.ofText
  cases hzero : tokenize 0 text with
  | error e =>
    rw [tokenize_eq_shiftScan, hzero] at h
    cases h
  | ok us =>
    rw [tokenize_eq_shiftScan, hzero] at h
    cases h
    simp only [Except.map, List.map_map]
    rfl

end MathMarkup
