import MathMarkup.Number.Numeral
import MathMarkup.Text.Hex
import MathMarkup.Toml.Item

/-!
# TOML numbers and dates

Integers of 64 bits, binary64 numbers, and dates and times of day. Each reader takes the longest
form that stands at the head of a text.
-/
namespace MathMarkup.Toml

-- powers of natural numbers are the core library's, whatever else is imported
attribute [local instance (high)] instPowNat

/-- Digits after a first one; an underscore may stand between two of them and is left out. -/
def takeMoreDigits (digit : Char → Bool) : Text → Text × Text
  | '_' :: c :: rest =>
    if digit c then
      let (digits, after) := takeMoreDigits digit rest
      (c :: digits, after)
    else ([], '_' :: c :: rest)
  | c :: rest =>
    if digit c then
      let (digits, after) := takeMoreDigits digit rest
      (c :: digits, after)
    else ([], c :: rest)
  | [] => ([], [])

/-- At least one digit. -/
def takeDigits? (digit : Char → Bool) : Text → Option (Text × Text)
  | c :: rest =>
    if digit c then
      let (digits, after) := takeMoreDigits digit rest
      some (c :: digits, after)
    else none
  | [] => none

/-- Decimal digits without a zero in front, unless it is the only one. -/
def takeDecimal? : Text → Option (Text × Text)
  | '0' :: rest => some (['0'], rest)
  | text => takeDigits? Char.isDigit text

/-! ## Dates and times -/

/-- Exactly so many decimal digits. -/
def takeFixed? (count : Nat) (text : Text) : Option (Nat × Text) :=
  let digits := text.take count
  if digits.length = count && digits.all Char.isDigit then
    some (Nat.ofDigitChars 10 digits 0, text.drop count)
  else none

/-- Two digits with a value in a range. -/
def takeTwo? (least greatest : Nat) (text : Text) : Option (Nat × Text) :=
  match takeFixed? 2 text with
  | some (value, rest) => if least ≤ value ∧ value ≤ greatest then some (value, rest) else none
  | none => none

def takeChar? (c : Char) : Text → Option Text
  | d :: rest => if d = c then some rest else none
  | [] => none

def isLeapYear (year : Nat) : Bool := year % 4 = 0 && (year % 100 ≠ 0 || year % 400 = 0)

def daysIn (year month : Nat) : Nat :=
  if month = 2 then if isLeapYear year then 29 else 28
  else if month = 4 ∨ month = 6 ∨ month = 9 ∨ month = 11 then 30
  else 31

def takeDate? (text : Text) : Option Text := do
  let (year, text) ← takeFixed? 4 text
  let text ← takeChar? '-' text
  let (month, text) ← takeTwo? 1 12 text
  let text ← takeChar? '-' text
  let (day, text) ← takeTwo? 1 31 text
  if day ≤ daysIn year month then some text else none

/-- Hours, minutes and seconds; the seconds may have a fraction. -/
def takeTime? (text : Text) : Option Text := do
  let (_, text) ← takeTwo? 0 23 text
  let text ← takeChar? ':' text
  let (_, text) ← takeTwo? 0 59 text
  let text ← takeChar? ':' text
  let (_, text) ← takeTwo? 0 60 text
  match text with
  | '.' :: c :: rest => if c.isDigit then some (rest.dropWhile Char.isDigit) else some text
  | _ => some text

/-- The distance from universal time. -/
def takeOffset? (text : Text) : Option Text :=
  match text with
  | 'Z' :: rest | 'z' :: rest => some rest
  | '+' :: rest | '-' :: rest => do
    let (_, text) ← takeTwo? 0 23 rest
    let text ← takeChar? ':' text
    let (_, text) ← takeTwo? 0 59 text
    some text
  | _ => none

/-- The time of day that may follow a date, with the offset that may follow the time. -/
def takeTimeAfterDate? (text : Text) : Option Text :=
  match text with
  | 'T' :: rest | 't' :: rest | ' ' :: rest => do
    let text ← takeTime? rest
    some ((takeOffset? text).getD text)
  | _ => none

def takeDateTime? (text : Text) : Option (Item × Text) :=
  match takeDate? text with
  | some rest => some (.dateTime, (takeTimeAfterDate? rest).getD rest)
  | none => (takeTime? text).map (.dateTime, ·)

/-! ## Numbers -/

/-- A point and the digits after it. -/
def takeFraction? : Text → Option (Text × Text)
  | '.' :: rest => takeDigits? Char.isDigit rest
  | _ => none

/-- An exponent, with its sign and digits. -/
def takePower? : Text → Option ((Bool × Text) × Text)
  | 'e' :: rest | 'E' :: rest =>
    let (negative, text) := Numeral.takeSign rest
    (takeDigits? Char.isDigit text).map fun (digits, after) => ((negative, digits), after)
  | _ => none

/-- A number that must have a fraction or an exponent, or is one of the words. What is too large
for a positive number is refused. -/
def takeFloat? (text : Text) : Option (Item × Text) :=
  let (negative, unsigned) := Numeral.takeSign text
  match unsigned with
  | 'i' :: 'n' :: 'f' :: rest => some (.float (.infinity negative), rest)
  | 'n' :: 'a' :: 'n' :: rest => some (.float .notANumber, rest)
  | _ =>
    match takeDecimal? unsigned with
    | none => none
    | some (whole, rest) =>
      let fraction := takeFraction? rest
      let rest := (fraction.map (·.2)).getD rest
      let power := takePower? rest
      let rest := (power.map (·.2)).getD rest
      let numeral : Numeral := ⟨whole, (fraction.map (·.1)).getD [], power.map (·.1)⟩
      let value := numeral.toDecimal.round negative
      if fraction.isNone && power.isNone then none
      else if value = .infinity false then none
      else some (.float value, rest)

/-- An integer of 64 bits with a sign. -/
def integer? (value : Int) : Option Item :=
  if -(2 ^ (63 : Nat) : Nat) ≤ value ∧ value < (2 ^ (63 : Nat) : Nat) then some (.integer value) else none

/-- Digits to base eight or two. -/
def takeRadix? (base : Nat) (text : Text) : Option (Item × Text) := do
  let (digits, rest) ← takeDigits? (fun c => '0' ≤ c && c.toNat < '0'.toNat + base) text
  let item ← integer? (Nat.ofDigitChars base digits 0)
  some (item, rest)

def takeInteger? (text : Text) : Option (Item × Text) :=
  match text with
  | '0' :: 'x' :: rest => do
    let (digits, rest) ← takeDigits? (fun c => (Text.hexDigit? c).isSome) rest
    let value ← digits.hexValue?
    let item ← integer? value
    some (item, rest)
  | '0' :: 'o' :: rest => takeRadix? 8 rest
  | '0' :: 'b' :: rest => takeRadix? 2 rest
  | _ =>
    let (negative, unsigned) := Numeral.takeSign text
    do
      let (digits, rest) ← takeDecimal? unsigned
      let value : Int := Nat.ofDigitChars 10 digits 0
      let item ← integer? (if negative then -value else value)
      some (item, rest)

/-- A date, a time, a number or a truth value. -/
def takeScalar? (text : Text) : Option (Item × Text) :=
  match text with
  | 't' :: 'r' :: 'u' :: 'e' :: rest => some (.boolean true, rest)
  | 'f' :: 'a' :: 'l' :: 's' :: 'e' :: rest => some (.boolean false, rest)
  | _ => ((takeDateTime? text).or (takeFloat? text)).or (takeInteger? text)

end MathMarkup.Toml
