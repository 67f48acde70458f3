import MathMarkup.CommandLine.Arguments
import MathMarkup.SettingsFile
import MathMarkup.Store.FileTree
import MathMarkup.Value.Basic

/-!
# Running a command

One command converts one value, and prints its markup or exports it to a file. Everything that can
go wrong is found out before anything is written.
-/
namespace MathMarkup.CommandLine

/-- What a run leaves to be seen, besides the files. -/
structure Outcome where
  code : Nat
  stdout : Text
  stderr : Text
  deriving DecidableEq

/-- Why a run with accepted arguments ends without a result. -/
inductive Failure where
  | settings (error : SettingsError)
  | invalidNumber (item : Text)
  | noExpression
  | input (error : StoreError)
  | conversion (error : ConversionError)
  | exporting (error : ExportError)
  deriving DecidableEq

def Failure.message : Failure → String
  | settings e => e.message
  | invalidNumber item => "invalid number '" ++ String.ofList item ++ "'"
  | noExpression => "no expression given"
  | input e => e.message
  | conversion e => e.message
  | exporting e => e.message

/-- The settings of a run: those of the file, if one is named, with the switches over them. -/
def Arguments.overrides (a : Arguments) (settings : Settings) : Settings :=
  { settings with
    layout := if a.pretty then .pretty else settings.layout
    saveLocation := (a.saveLocation.map Path.mk).getD settings.saveLocation }

def Arguments.options (a : Arguments) : ExportOptions :=
  let brackets : Brackets :=
    (if a.opening then Brackets.opening else .empty).union
      (if a.closing then Brackets.closing else .empty)
  ⟨a.mode.getD .override, a.format.getD .fragment,
    if a.opening || a.closing then some brackets else none⟩

/-- Reads numbers from left to right. -/
def readItems : List Text → Except Failure (List Binary64)
  | [] => .ok []
  | item :: items =>
    match Binary64.ofText? item.trim with
    | none => .error (.invalidNumber item.trim)
    | some v =>
      match readItems items with
      | .error e => .error e
      | .ok vs => .ok (v :: vs)

/-- The numbers between commas. -/
def readNumbers (text : Text) : Except Failure (List Binary64) := readItems (text.split ',')

def readRows : List Text → Except Failure (List (List Binary64))
  | [] => .ok []
  | text :: texts =>
    match readNumbers text with
    | .error e => .error e
    | .ok row =>
      match readRows texts with
      | .error e => .error e
      | .ok rows => .ok (row :: rows)

/-- The value to convert, where no input has to be read for it. -/
def Arguments.value? (a : Arguments) : Option (Except Failure Value) :=
  match a.vector, a.matrix, a.expression with
  | some text, _, _ => some ((readNumbers text).map .vector)
  | none, some text, _ => some ((readRows (text.split ';')).map .matrix)
  | none, none, some text => some (.ok (.scalar text.trim))
  | none, none, none => none

/-- The expression that standard input holds, unless it is a terminal. -/
def expressionOf : Option Content → Except Failure Value
  | none => .error .noExpression
  | some content =>
    match content.readText with
    | .error e => .error (.input e)
    | .ok text => .ok (.scalar text.trim)

def reportOf (path : Path) (text : Text) : Text :=
  "✓ Output written to: ".toList ++ path.text ++ " (".toList ++ Nat.toDigits 10 text.byteCount ++
    " bytes)\n".toList

section

variable {m : Type → Type} [Monad m] [FileAccess m]

def Arguments.settings (a : Arguments) : m (Except Failure Settings) := do
  match a.config with
  | none => return .ok (a.overrides .default)
  | some path =>
    match ← Settings.load ⟨path⟩ with
    | .error e => return .error (.settings e)
    | .ok settings => return .ok (a.overrides settings)

def Arguments.value (a : Arguments) (stdin : m (Option Content)) : m (Except Failure Value) := do
  match a.value? with
  | some value => return value
  | none => return expressionOf (← stdin)

/-- Prints markup, or exports it if a file is named. -/
def Arguments.deliver (a : Arguments) (settings : Settings) (markup : Text) :
    m (Except Failure Outcome) := do
  match a.output with
  | none => return .ok ⟨0, markup ++ ['\n'], []⟩
  | some filename =>
    match ← exportText settings a.options filename markup with
    | .error e => return .error (.exporting e)
    | .ok text =>
      return .ok ⟨0, [], reportOf (targetPath filename a.options.format settings) text⟩

/-- Converts the value that the arguments name, and delivers its markup. -/
def Arguments.execute (a : Arguments) (stdin : m (Option Content)) :
    m (Except Failure Outcome) := do
  match ← a.settings with
  | .error e => return .error e
  | .ok settings =>
    match ← a.value stdin with
    | .error e => return .error e
    | .ok value =>
      match value.render settings.layout with
      | .error e => return .error (.conversion e)
      | .ok markup => a.deliver settings markup

end

/-! ## What is printed instead of a result -/

def versionText : Text := "matex 0.1.0\n".toList

def helpText : Text :=
  (String.intercalate "\n"
    ["MaTeX - Convert expressions, vectors and matrices to LaTeX",
      "",
      "Usage: matex [OPTIONS] [EXPRESSION]",
      "",
      "Arguments:",
      "  [EXPRESSION]  Expression or equation chain (reads from stdin if nothing is given)",
      "",
      "Options:",
      "      --vector <VECTOR>                Render a vector instead, e.g. \"1,2,3\"",
      "      --matrix <MATRIX>                Render a matrix instead, rows separated by ';'",
      "  -p, --pretty                         Pretty print the output",
      "  -o, --output <OUTPUT>                Export to this file instead of stdout",
      "  -m, --mode <MODE>                    How the output file is modified [default: override]",
      "  -f, --format <FORMAT>                Wrapping template of the output file [default: tex]",
      "      --begin                          Emit \\begin\x7bdocument\x7d (tex-document format)",
      "      --end                            Emit \\end\x7bdocument\x7d (tex-document format)",
      "  -s, --save-location <SAVE_LOCATION>  Directory output files are written to",
      "  -c, --config <CONFIG>                TOML config file with defaults",
      "  -h, --help                           Print help",
      "  -V, --version                        Print version",
      ""]).toList

def usageText (e : UsageError) : Text :=
  ("error: " ++ e.message ++ "\n\nFor more information, try '--help'.\n").toList

def failureText (e : Failure) : Text := ("Error: " ++ e.message ++ "\n").toList

/-- Runs a command line. A run that fails ends with code 1, a wrong command line with code 2. -/
def run {m : Type → Type} [Monad m] [FileAccess m] (stdin : m (Option Content))
    (words : List Text) : m Outcome := do
  match Arguments.read words with
  | .error .help => return ⟨0, helpText, []⟩
  | .error .version => return ⟨0, versionText, []⟩
  | .error (.usage e) => return ⟨2, [], usageText e⟩
  | .ok a =>
    match ← a.execute stdin with
    | .error e => return ⟨1, [], failureText e⟩
    | .ok outcome => return outcome

end MathMarkup.CommandLine
