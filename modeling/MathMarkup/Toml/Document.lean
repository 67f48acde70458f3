import MathMarkup.Toml.Scalar
import MathMarkup.Toml.String

/-!
# TOML documents

A document is read line by line into statements, which then build its root table. Arrays and inline
tables nest to a fixed depth.
-/
namespace MathMarkup.Toml

/-- How deep arrays and inline tables nest. -/
def nestingLimit : Nat := 79

/-- How many parts a dotted key has. -/
def keyLimit : Nat := 79

def skipSpaces (text : Text) : Text := text.dropWhile isSpace

/-- Skips spaces, ends of lines and comments. -/
def skipTrivia (text : Text) : Text :=
  match text with
  | ' ' :: rest => skipTrivia rest
  | '\t' :: rest => skipTrivia rest
  | '\n' :: rest => skipTrivia rest
  | '\r' :: '\n' :: rest => skipTrivia rest
  | '#' :: rest => skipTrivia (rest.dropWhile isLineChar)
  | _ => text
termination_by text.length
decreasing_by
  all_goals simp only [List.length_cons]
  all_goals first | omega | exact Nat.lt_succ_of_le (List.dropWhile_sublist _).length_le

/-! ## Keys -/

def isBareKeyChar (c : Char) : Bool := c.isAlphanum || c = '_' || c = '-'

/-- One part of a key: a string on one line, or a bare word. -/
def takeKeyPart? (text : Text) : Option (Text × Text) :=
  match text with
  | '"' :: rest => takeBasic? rest
  | '\'' :: rest => takeLiteral? rest
  | _ =>
    let word := text.takeWhile isBareKeyChar
    if word = [] then none else some (word, text.dropWhile isBareKeyChar)

/-- The parts of a key, with spaces around each. -/
def takeKeyParts? (text : Text) : Option (List Text × Text) :=
  match takeKeyPart? (skipSpaces text) with
  | none => none
  | some (part, rest) =>
    match skipSpaces rest with
    | '.' :: more =>
      if more.length < text.length then
        (takeKeyParts? more).map fun (parts, after) => (part :: parts, after)
      else none
    | after => some ([part], after)
termination_by text.length

def takeKey? (text : Text) : Option (Key × Text) :=
  match takeKeyParts? text with
  | some (parts, rest) =>
    match parts.getLast? with
    | some last => if parts.length ≤ keyLimit then some (⟨parts.dropLast, last⟩, rest) else none
    | none => none
  | none => none

/-! ## Values -/

/-- The items of an array, of which at least one follows, up to the closing bracket. -/
def takeItems? (item : Text → Option (Item × Text)) (text : Text) : Option (List Item × Text) :=
  match item text with
  | none => none
  | some (x, rest) =>
    match skipTrivia rest with
    | ']' :: after => some ([x], after)
    | ',' :: more =>
      match skipTrivia more with
      | ']' :: after => some ([x], after)
      | next =>
        if next.length < text.length then
          (takeItems? item next).map fun (xs, after) => (x :: xs, after)
        else none
    | _ => none
termination_by text.length

/-- A key and its value. -/
def takePair? (item : Text → Option (Item × Text)) (text : Text) :
    Option ((Key × Item) × Text) := do
  let (key, rest) ← takeKey? text
  let rest ← takeChar? '=' rest
  let (value, rest) ← item (skipSpaces rest)
  some ((key, value), rest)

/-- The pairs of an inline table, of which at least one follows, up to the closing brace. -/
def takePairs? (item : Text → Option (Item × Text)) (text : Text) :
    Option (List (Key × Item) × Text) :=
  match takePair? item text with
  | none => none
  | some (pair, rest) =>
    match skipSpaces rest with
    | '\x7d' :: after => some ([pair], after)
    | ',' :: more =>
      if more.length < text.length then
        (takePairs? item more).map fun (pairs, after) => (pair :: pairs, after)
      else none
    | _ => none
termination_by text.length

/-- A value in which arrays and inline tables nest at most so many levels deep. -/
def takeItem? (levels : Nat) (text : Text) : Option (Item × Text) :=
  match text, levels with
  | '"' :: _, _ | '\'' :: _, _ => (takeString? text).map fun (s, rest) => (.string s, rest)
  | '[' :: _, 0 | '\x7b' :: _, 0 => none
  | '[' :: rest, levels + 1 =>
    match skipTrivia rest with
    | ']' :: after => some (.array [], after)
    | first => (takeItems? (takeItem? levels) first).map fun (xs, after) => (.array xs, after)
  | '\x7b' :: rest, levels + 1 =>
    match skipSpaces rest with
    | '\x7d' :: after => some (.table .inlineTable [], after)
    | first => do
      let (pairs, after) ← takePairs? (takeItem? levels) first
      let entries ← entriesOf pairs
      some (.table .inlineTable entries, after)
  | _, _ => takeScalar? text

/-! ## Lines -/

/-- What is left after the end of a line, before which spaces and a comment may stand. -/
def takeLineEnd? (text : Text) : Option Text :=
  let rest :=
    match skipSpaces text with
    | '#' :: comment => comment.dropWhile isLineChar
    | rest => rest
  if rest = [] then some [] else takeNewline? rest

/-- One statement and the end of its line. -/
def takeStatement? (text : Text) : Option (Statement × Text) :=
  match text with
  | '[' :: '[' :: rest => do
    let (key, rest) ← takeKey? rest
    let rest ← takeChar? ']' rest
    let rest ← takeChar? ']' rest
    let rest ← takeLineEnd? rest
    some (.element key, rest)
  | '[' :: rest => do
    let (key, rest) ← takeKey? rest
    let rest ← takeChar? ']' rest
    let rest ← takeLineEnd? rest
    some (.table key, rest)
  | _ => do
    let ((key, value), rest) ← takePair? (takeItem? nestingLimit) text
    let rest ← takeLineEnd? rest
    some (.pair key value, rest)

/-- The statements of a text; lines may be blank or hold a comment only. -/
def statements? (text : Text) : Option (List Statement) :=
  match skipSpaces text with
  | [] => some []
  | first =>
    match takeLineEnd? first with
    | some rest => if rest.length < text.length then statements? rest else none
    | none =>
      match takeStatement? first with
      | some (statement, rest) =>
        if rest.length < text.length then (statements? rest).map (statement :: ·) else none
      | none => none
termination_by text.length

/-- The root table of a document; a byte order mark may stand before it. -/
def parse? (text : Text) : Option Entries :=
  let text :=
    match text with
    | '\uFEFF' :: rest => rest
    | text => text
  match statements? text with
  | some statements => build [] [] statements
  | none => none

end MathMarkup.Toml
