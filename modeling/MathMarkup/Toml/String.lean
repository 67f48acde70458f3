import MathMarkup.Text.Hex

/-!
# TOML strings

Basic strings with escapes, literal strings without, and both over several lines. Each reader
starts after the opening quotes and gives the text after the closing ones.
-/
namespace MathMarkup.Toml

/-- Space or tab. -/
def isSpace (c : Char) : Bool := c = ' ' || c = '\t'

/-- The characters that may stand in a line: tab, and everything but control characters. -/
def isLineChar (c : Char) : Bool := c = '\t' || (' ' ≤ c && c ≠ '\x7f')

/-- Skips spaces and ends of lines. -/
def skipBlankLines : Text → Text
  | ' ' :: rest => skipBlankLines rest
  | '\t' :: rest => skipBlankLines rest
  | '\n' :: rest => skipBlankLines rest
  | '\r' :: '\n' :: rest => skipBlankLines rest
  | text => text

/-- Takes the end of a line. -/
def takeNewline? : Text → Option Text
  | '\n' :: rest => some rest
  | '\r' :: '\n' :: rest => some rest
  | _ => none

/-- The character with the given code point, written to base sixteen. -/
def charOfHex? (digits : Text) : Option Char :=
  match digits.hexValue? with
  | some value => if value.isValidChar then some (Char.ofNat value) else none
  | none => none

/-- The character that an escape stands for, after its backslash. -/
def takeEscape? : Text → Option (Char × Text)
  | 'b' :: rest => some ('\x08', rest)
  | 't' :: rest => some ('\t', rest)
  | 'n' :: rest => some ('\n', rest)
  | 'f' :: rest => some ('\x0c', rest)
  | 'r' :: rest => some ('\r', rest)
  | '"' :: rest => some ('"', rest)
  | '\\' :: rest => some ('\\', rest)
  | 'u' :: rest =>
    if rest.length < 4 then none else (charOfHex? (rest.take 4)).map (·, rest.drop 4)
  | 'U' :: rest =>
    if rest.length < 8 then none else (charOfHex? (rest.take 8)).map (·, rest.drop 8)
  | _ => none

theorem skipBlankLines_length_le (text : Text) : (skipBlankLines text).length ≤ text.length := by
  fun_induction skipBlankLines text <;> simp_all <;> omega

theorem takeNewline?_length_lt {text rest : Text} (h : takeNewline? text = some rest) :
    rest.length < text.length := by
  unfold takeNewline? at h
  split at h
  · cases h
    exact Nat.lt_succ_self _
  · cases h
    exact Nat.lt_succ_of_lt (Nat.lt_succ_self _)
  · cases h

theorem takeEscape?_length_lt {text rest : Text} {c : Char}
    (h : takeEscape? text = some (c, rest)) : rest.length < text.length := by
  unfold takeEscape? at h
  split at h <;> simp_all <;> grind

/-- A basic string. -/
def takeBasic? (text : Text) : Option (Text × Text) :=
  match text with
  | [] => none
  | '"' :: rest => some ([], rest)
  | '\\' :: rest =>
    match _h : takeEscape? rest with
    | some (c, after) => (takeBasic? after).map fun (s, after) => (c :: s, after)
    | none => none
  | c :: rest =>
    if isLineChar c then (takeBasic? rest).map fun (s, after) => (c :: s, after) else none
termination_by text.length
decreasing_by
  · have := takeEscape?_length_lt _h
    simp only [List.length_cons]
    omega
  · simp

/-- A basic string over several lines. Up to two quotes may stand before the closing three, and a
backslash at the end of a line skips to the next character that is not blank. -/
def takeMultilineBasic? (text : Text) : Option (Text × Text) :=
  match text with
  | [] => none
  | '"' :: '"' :: '"' :: '"' :: '"' :: rest => some (['"', '"'], rest)
  | '"' :: '"' :: '"' :: '"' :: rest => some (['"'], rest)
  | '"' :: '"' :: '"' :: rest => some ([], rest)
  | '\\' :: rest =>
    match _h : takeNewline? (rest.dropWhile isSpace) with
    | some after => takeMultilineBasic? (skipBlankLines after)
    | none =>
      match _h : takeEscape? rest with
      | some (c, after) => (takeMultilineBasic? after).map fun (s, after) => (c :: s, after)
      | none => none
  | '\r' :: '\n' :: rest => (takeMultilineBasic? rest).map fun (s, after) => ('\n' :: s, after)
  | c :: rest =>
    if c = '\n' || isLineChar c then
      (takeMultilineBasic? rest).map fun (s, after) => (c :: s, after)
    else none
termination_by text.length
decreasing_by
  · have h1 := takeNewline?_length_lt _h
    have h2 := skipBlankLines_length_le after
    have h3 := (List.dropWhile_sublist isSpace (l := rest)).length_le
    simp only [List.length_cons]
    omega
  · have := takeEscape?_length_lt _h
    simp only [List.length_cons]
    omega
  · simp only [List.length_cons]
    omega
  · simp

/-- A literal string. -/
def takeLiteral? (text : Text) : Option (Text × Text) :=
  let content := text.takeWhile fun c => isLineChar c && c ≠ '\''
  match text.dropWhile fun c => isLineChar c && c ≠ '\'' with
  | '\'' :: rest => some (content, rest)
  | _ => none

/-- A literal string over several lines. -/
def takeMultilineLiteral? : Text → Option (Text × Text)
  | [] => none
  | '\'' :: '\'' :: '\'' :: '\'' :: '\'' :: rest => some (['\'', '\''], rest)
  | '\'' :: '\'' :: '\'' :: '\'' :: rest => some (['\''], rest)
  | '\'' :: '\'' :: '\'' :: rest => some ([], rest)
  | '\r' :: '\n' :: rest => (takeMultilineLiteral? rest).map fun (s, after) => ('\n' :: s, after)
  | c :: rest =>
    if c = '\n' || isLineChar c then
      (takeMultilineLiteral? rest).map fun (s, after) => (c :: s, after)
    else none

/-- Drops the end of line that may follow the opening quotes of a string over several lines. -/
def skipFirstNewline (text : Text) : Text := (takeNewline? text).getD text

/-- Any kind of string, with its opening quotes. -/
def takeString? : Text → Option (Text × Text)
  | '"' :: '"' :: '"' :: rest => takeMultilineBasic? (skipFirstNewline rest)
  | '"' :: rest => takeBasic? rest
  | '\'' :: '\'' :: '\'' :: rest => takeMultilineLiteral? (skipFirstNewline rest)
  | '\'' :: rest => takeLiteral? rest
  | _ => none

end MathMarkup.Toml
