import MathMarkup.Document.Export

/-!
# Arguments

The words of a command line, read from left to right. Switches are long or short, short ones may
stand together behind one hyphen, and a value is attached to its switch or is the next word. The
first word that is wrong, or asks for help or for the version, ends the reading.
-/
namespace MathMarkup.CommandLine

/-- What a command line asks for. -/
structure Arguments where
  expression : Option Text
  vector : Option Text
  matrix : Option Text
  pretty : Bool
  output : Option Text
  mode : Option WriteMode
  format : Option Format
  opening : Bool
  closing : Bool
  saveLocation : Option Text
  config : Option Text

def Arguments.empty : Arguments :=
  ⟨none, none, none, false, none, none, none, false, false, none, none⟩

/-- The switches that have a value. -/
inductive Setting where
  | vector
  | matrix
  | output
  | mode
  | format
  | saveLocation
  | config
  deriving DecidableEq

inductive Flag where
  | pretty
  | opening
  | closing
  deriving DecidableEq

inductive Switch where
  | setting (s : Setting)
  | flag (f : Flag)
  | help
  | version
  deriving DecidableEq

inductive UsageError where
  | unknownSwitch (name : Text)
  | missingValue (s : Setting)
  | unneededValue (name : Text)
  | invalidValue (s : Setting) (value : Text)
  | repeated (name : String)
  | unexpectedWord (word : Text)
  | conflict
  deriving DecidableEq

/-- Why there are no arguments to run with. -/
inductive Stop where
  | help
  | version
  | usage (error : UsageError)
  deriving DecidableEq

namespace Setting

def name : Setting → String
  | vector => "--vector <VECTOR>"
  | matrix => "--matrix <MATRIX>"
  | output => "--output <OUTPUT>"
  | mode => "--mode <MODE>"
  | format => "--format <FORMAT>"
  | saveLocation => "--save-location <SAVE_LOCATION>"
  | config => "--config <CONFIG>"

end Setting

namespace Flag

def name : Flag → String
  | pretty => "--pretty"
  | opening => "--begin"
  | closing => "--end"

end Flag

namespace UsageError

def message : UsageError → String
  | unknownSwitch name => "unexpected argument '" ++ String.ofList name ++ "' found"
  | missingValue s => "a value is required for '" ++ s.name ++ "' but none was supplied"
  | unneededValue name => "unexpected value for '" ++ String.ofList name ++ "' found"
  | invalidValue s value => "invalid value '" ++ String.ofList value ++ "' for '" ++ s.name ++ "'"
  | repeated name => "the argument '" ++ name ++ "' cannot be used multiple times"
  | unexpectedWord word => "unexpected argument '" ++ String.ofList word ++ "' found"
  | conflict => "only one of an expression, '--vector' and '--matrix' can be given"

end UsageError

namespace Switch

def ofLong? (name : Text) : Option Switch :=
  match String.ofList name with
  | "vector" => some (setting .vector)
  | "matrix" => some (setting .matrix)
  | "pretty" => some (flag .pretty)
  | "output" => some (setting .output)
  | "mode" => some (setting .mode)
  | "format" => some (setting .format)
  | "begin" => some (flag .opening)
  | "end" => some (flag .closing)
  | "save-location" => some (setting .saveLocation)
  | "config" => some (setting .config)
  | "help" => some help
  | "version" => some version
  | _ => none

def ofShort? : Char → Option Switch
  | 'p' => some (flag .pretty)
  | 'o' => some (setting .output)
  | 'm' => some (setting .mode)
  | 'f' => some (setting .format)
  | 's' => some (setting .saveLocation)
  | 'c' => some (setting .config)
  | 'h' => some help
  | 'V' => some version
  | _ => none

end Switch

def modeOf? (value : Text) : Option WriteMode :=
  if value = "override".toList then some .override
  else if value = "insert-after-begin".toList then some .afterBegin
  else if value = "insert-before-end".toList then some .beforeEnd
  else none

def formatOf? (value : Text) : Option Format :=
  if value = "plain".toList then some .plain
  else if value = "markdown".toList then some .markdown
  else if value = "tex".toList then some .fragment
  else if value = "tex-document".toList then some .document
  else none

namespace Arguments

/-- Gives a switch its value; a switch may be used once. -/
def set (a : Arguments) (s : Setting) (value : Text) : Except Stop Arguments :=
  let once {α : Type} (old : Option α) (new : Arguments) : Except Stop Arguments :=
    if old.isSome then .error (.usage (.repeated s.name)) else .ok new
  match s with
  | .vector => once a.vector { a with vector := some value }
  | .matrix => once a.matrix { a with matrix := some value }
  | .output => once a.output { a with output := some value }
  | .saveLocation => once a.saveLocation { a with saveLocation := some value }
  | .config => once a.config { a with config := some value }
  | .mode =>
    match modeOf? value with
    | some mode => once a.mode { a with mode := some mode }
    | none => .error (.usage (.invalidValue s value))
  | .format =>
    match formatOf? value with
    | some format => once a.format { a with format := some format }
    | none => .error (.usage (.invalidValue s value))

/-- Turns a flag on; it may be used once. -/
def turnOn (a : Arguments) (f : Flag) : Except Stop Arguments :=
  let once (old : Bool) (new : Arguments) : Except Stop Arguments :=
    if old then .error (.usage (.repeated f.name)) else .ok new
  match f with
  | .pretty => once a.pretty { a with pretty := true }
  | .opening => once a.opening { a with opening := true }
  | .closing => once a.closing { a with closing := true }

/-- Takes a word that belongs to no switch; there may be one. -/
def setExpression (a : Arguments) (word : Text) : Except Stop Arguments :=
  match a.expression with
  | some _ => .error (.usage (.unexpectedWord word))
  | none => .ok { a with expression := some word }

/-- At most one thing can be converted. -/
def check (a : Arguments) : Except Stop Arguments :=
  if 1 < ([a.expression, a.vector, a.matrix].filter Option.isSome).length then
    .error (.usage .conflict)
  else .ok a

end Arguments

/-- Arguments read so far, with the switch whose value is still to come. -/
abbrev Reading := Arguments × Option Setting

/-- Reads a long switch, after its hyphens; a value may be attached with an equality sign. -/
def readLong (a : Arguments) (word : Text) : Except Stop Reading :=
  let name := word.takeWhile (· ≠ '=')
  let attached := (word.dropWhile (· ≠ '=')).tail?
  match Switch.ofLong? name, attached with
  | none, _ => .error (.usage (.unknownSwitch ("--".toList ++ name)))
  | some (.setting s), some value => (a.set s value).map (·, none)
  | some (.setting s), none => .ok (a, some s)
  | some _, some _ => .error (.usage (.unneededValue ("--".toList ++ name)))
  | some (.flag f), none => (a.turnOn f).map (·, none)
  | some .help, none => .error .help
  | some .version, none => .error .version

/-- Reads short switches, after their hyphen; the first that has a value takes all that follows it
in the word, with or without an equality sign. -/
def readShort (a : Arguments) : Text → Except Stop Reading
  | [] => .ok (a, none)
  | c :: rest =>
    match Switch.ofShort? c with
    | none => .error (.usage (.unknownSwitch ['-', c]))
    | some (.flag f) =>
      match a.turnOn f with
      | .error stop => .error stop
      | .ok a => readShort a rest
    | some .help => .error .help
    | some .version => .error .version
    | some (.setting s) =>
      match rest with
      | [] => .ok (a, some s)
      | '=' :: value => (a.set s value).map (·, none)
      | value => (a.set s value).map (·, none)

/-- Reads the words after a lone double hyphen, none of which is a switch. -/
def readPlain (a : Arguments) : List Text → Except Stop Arguments
  | [] => .ok a
  | word :: words =>
    match a.setExpression word with
    | .error stop => .error stop
    | .ok a => readPlain a words

/-- Whether a word begins with a hyphen and is not that alone. -/
def isSwitch : Text → Bool
  | '-' :: _ :: _ => true
  | _ => false

def readWords (a : Arguments) (pending : Option Setting) : List Text → Except Stop Arguments
  | [] =>
    match pending with
    | some s => .error (.usage (.missingValue s))
    | none => .ok a
  | word :: words =>
    match pending with
    | some s =>
      if isSwitch word then .error (.usage (.missingValue s))
      else
        match a.set s word with
        | .error stop => .error stop
        | .ok a => readWords a none words
    | none =>
      match word with
      | ['-', '-'] => readPlain a words
      | '-' :: '-' :: long =>
        match readLong a long with
        | .error stop => .error stop
        | .ok (a, pending) => readWords a pending words
      | '-' :: c :: short =>
        match readShort a (c :: short) with
        | .error stop => .error stop
        | .ok (a, pending) => readWords a pending words
      | word =>
        match a.setExpression word with
        | .error stop => .error stop
        | .ok a => readWords a none words

/-- The arguments of a command line, or why there are none. -/
def Arguments.read (words : List Text) : Except Stop Arguments :=
  match readWords empty none words with
  | .error stop => .error stop
  | .ok a => a.check

end MathMarkup.CommandLine
