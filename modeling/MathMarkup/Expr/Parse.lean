import MathMarkup.Expr.Function
import MathMarkup.Expr.Scan

/-!
# Parsing

Reading an equation from its text, by recursive descent over the tokens of each side:

    equation := sum ('=' sum)*
    sum      := product (('+' | '-') product)*
    product  := factor (('*' | '/') factor)*
    factor   := ('-' | '+') factor | NUMBER | NAME | NAME '(' sum ')' | '(' sum ')'

Operators of equal strength associate to the left, a plus sign in front of a factor leaves no
trace, and the name before a parenthesis has to be that of an elementary function. The reader of a
factor is told the token before it, which decides how a missing factor is reported.
-/
namespace MathMarkup

namespace Parse

/-- An expression and the tokens after it, of which fewer are left than there were. -/
abbrev Result (tokens : List PlacedToken) :=
  Except ParseError (Expr × { rest : List PlacedToken // rest.length < tokens.length })

/-- An expression and the tokens after it, some of which may have been read. -/
abbrev TailResult (tokens : List PlacedToken) :=
  Except ParseError (Expr × { rest : List PlacedToken // rest.length ≤ tokens.length })

/-- The operation that joins two products of a sum. -/
def additive? : Token → Option BinaryOp
  | .operator .add => some .add
  | .operator .sub => some .sub
  | _ => none

/-- The operation that joins two factors of a product. -/
def multiplicative? : Token → Option BinaryOp
  | .operator .mul => some .mul
  | .operator .div => some .div
  | _ => none

def failAt {α : Type} (cause : ParseError.Cause) (column : Nat) : Except ParseError α :=
  .error ⟨cause, some column⟩

/-- The tokens end where a factor should stand. -/
def missingAtEnd {α : Type} (endColumn : Nat) : Option PlacedToken → Except ParseError α
  | some ⟨.operator op, column⟩ => failAt (.missingOperand op) column
  | some ⟨.opening, column⟩ => failAt .unclosed column
  | _ => failAt .unexpectedEnd endColumn

/-- A closing parenthesis stands where a factor should. -/
def missingAtClosing {α : Type} (column : Nat) : Option PlacedToken → Except ParseError α
  | some ⟨.operator op, before⟩ => failAt (.missingOperand op) before
  | some ⟨.opening, before⟩ => failAt .emptyParentheses before
  | _ => failAt .unmatched column

/-- Takes the closing parenthesis that belongs to an opening one. -/
def takeClosing (openColumn : Nat) (tokens : List PlacedToken) :
    Except ParseError { rest : List PlacedToken // rest.length < tokens.length } :=
  match tokens with
  | [] => failAt .unclosed openColumn
  | ⟨.closing, _⟩ :: rest => .ok ⟨rest, Nat.lt_succ_self _⟩
  | found :: _ => failAt (.expectedClosing found.token) found.column

mutual

def sum (endColumn : Nat) (before : Option PlacedToken) (tokens : List PlacedToken) :
    Result tokens :=
  match product endColumn before tokens with
  | .error e => .error e
  | .ok (left, ⟨rest, hrest⟩) =>
    match sumTail endColumn left rest with
    | .error e => .error e
    | .ok (x, ⟨after, hafter⟩) => .ok (x, ⟨after, Nat.lt_of_le_of_lt hafter hrest⟩)
termination_by (tokens.length, 3)

/-- Goes on with a sum of which `left` is read. -/
def sumTail (endColumn : Nat) (left : Expr) (tokens : List PlacedToken) : TailResult tokens :=
  match tokens with
  | [] => .ok (left, ⟨[], Nat.le_refl _⟩)
  | t :: rest =>
    match additive? t.token with
    | none => .ok (left, ⟨t :: rest, Nat.le_refl _⟩)
    | some op =>
      match product endColumn (some t) rest with
      | .error e => .error e
      | .ok (right, ⟨more, hmore⟩) =>
        match sumTail endColumn (.binary op left right) more with
        | .error e => .error e
        | .ok (x, ⟨after, hafter⟩) =>
          .ok (x, ⟨after, by simp only [List.length_cons]; omega⟩)
termination_by (tokens.length, 0)

def product (endColumn : Nat) (before : Option PlacedToken) (tokens : List PlacedToken) :
    Result tokens :=
  match factor endColumn before tokens with
  | .error e => .error e
  | .ok (left, ⟨rest, hrest⟩) =>
    match productTail endColumn left rest with
    | .error e => .error e
    | .ok (x, ⟨after, hafter⟩) => .ok (x, ⟨after, Nat.lt_of_le_of_lt hafter hrest⟩)
termination_by (tokens.length, 2)

/-- Goes on with a product of which `left` is read. -/
def productTail (endColumn : Nat) (left : Expr) (tokens : List PlacedToken) : TailResult tokens :=
  match tokens with
  | [] => .ok (left, ⟨[], Nat.le_refl _⟩)
  | t :: rest =>
    match multiplicative? t.token with
    | none => .ok (left, ⟨t :: rest, Nat.le_refl _⟩)
    | some op =>
      match factor endColumn (some t) rest with
      | .error e => .error e
      | .ok (right, ⟨more, hmore⟩) =>
        match productTail endColumn (.binary op left right) more with
        | .error e => .error e
        | .ok (x, ⟨after, hafter⟩) =>
          .ok (x, ⟨after, by simp only [List.length_cons]; omega⟩)
termination_by (tokens.length, 0)

def factor (endColumn : Nat) (before : Option PlacedToken) (tokens : List PlacedToken) :
    Result tokens :=
  match tokens with
  | [] => missingAtEnd endColumn before
  | t :: rest =>
    match t.token with
    | .number v => .ok (.number v, ⟨rest, Nat.lt_succ_self _⟩)
    | .operator .sub =>
      match factor endColumn (some t) rest with
      | .error e => .error e
      | .ok (x, ⟨after, hafter⟩) => .ok (.neg x, ⟨after, Nat.lt_succ_of_lt hafter⟩)
    | .operator .add =>
      match factor endColumn (some t) rest with
      | .error e => .error e
      | .ok (x, ⟨after, hafter⟩) => .ok (x, ⟨after, Nat.lt_succ_of_lt hafter⟩)
    | .operator op => failAt (.missingOperand op) t.column
    | .closing => missingAtClosing t.column before
    | .opening =>
      match group endColumn t rest with
      | .error e => .error e
      | .ok (x, ⟨after, hafter⟩) => .ok (x, ⟨after, Nat.lt_succ_of_lt hafter⟩)
    | .ident name =>
      match rest with
      | ⟨.opening, column⟩ :: inner =>
        match ElementaryFunction.ofName? name with
        | none => failAt (.unknownFunction name) t.column
        | some _ =>
          match group endColumn ⟨.opening, column⟩ inner with
          | .error e => .error e
          | .ok (x, ⟨after, hafter⟩) =>
            .ok (.call name [x], ⟨after, by simp only [List.length_cons]; omega⟩)
      | rest => .ok (.ident name, ⟨rest, Nat.lt_succ_self _⟩)
termination_by (tokens.length, 1)

/-- What stands between an opening parenthesis, which is read, and its closing one. -/
def group (endColumn : Nat) (bracket : PlacedToken) (tokens : List PlacedToken) : Result tokens :=
  match sum endColumn (some bracket) tokens with
  | .error e => .error e
  | .ok (x, ⟨rest, hrest⟩) =>
    match takeClosing bracket.column rest with
    | .error e => .error e
    | .ok ⟨after, hafter⟩ => .ok (x, ⟨after, Nat.lt_trans hafter hrest⟩)
termination_by (tokens.length, 4)

end

/-- Reads all the tokens of a side as one expression. -/
def ofTokens (endColumn : Nat) (tokens : List PlacedToken) : Except ParseError Expr :=
  match sum endColumn none tokens with
  | .error e => .error e
  | .ok (x, ⟨[], _⟩) => .ok x
  | .ok (_, ⟨found :: _, _⟩) =>
    if found.token = .closing then failAt .unmatched found.column
    else failAt (.unexpected found.token) found.column

/-- Reads one side, which follows `base` characters of the input. -/
def side (base : Nat) (text : Text) : Except ParseError Expr :=
  match tokenize base text with
  | .error e => .error e
  | .ok [] => failAt .emptySide (base + 1)
  | .ok tokens => ofTokens (base + text.length + 1) tokens

/-- Reads sides from left to right; one character stands between two of them. -/
def sides (base : Nat) : List Text → Except ParseError (List Expr)
  | [] => .ok []
  | part :: parts =>
    match side base part with
    | .error e => .error e
    | .ok x =>
      match sides (base + part.length + 1) parts with
      | .error e => .error e
      | .ok xs => .ok (x :: xs)

end Parse

/-- Reads an expression, or a chain of expressions joined by equality signs. -/
def Equation.parse (text : Text) : Except ParseError Equation :=
  match Parse.sides 0 (text.split '=') with
  | .error e => .error e
  | .ok xs => .ok ⟨xs⟩

/-- Reads a single expression; an equality sign is refused. -/
def Expr.parse (text : Text) : Except ParseError Expr :=
  match Equation.parse text with
  | .error e => .error e
  | .ok ⟨[x]⟩ => .ok x
  | .ok _ => .error ⟨.notSingle, none⟩

end MathMarkup
