import MathMarkup.Settings
import MathMarkup.Store.Basic
import MathMarkup.Toml.Document

/-!
# Settings files

Settings are kept in a TOML file. A key that is missing has its default value, and keys of other
names do not matter.
-/
namespace MathMarkup

inductive SettingsError where
  | unreadable (path : Path) (error : StoreError)
  | invalid (path : Path)
  deriving DecidableEq

def SettingsError.message : SettingsError → String
  | unreadable path e => "Cannot read config " ++ String.ofList path.text ++ ": " ++ e.message
  | invalid path => "Invalid config " ++ String.ofList path.text ++ ": TOML parse error"

namespace Settings

def layoutOf? (entries : Toml.Entries) : Option Layout :=
  match valueAt "pretty_printing".toList entries with
  | none => some default.layout
  | some (.boolean pretty) => some (if pretty then .pretty else .compact)
  | some _ => none

def saveLocationOf? (entries : Toml.Entries) : Option Path :=
  match valueAt "save_location".toList entries with
  | none => some default.saveLocation
  | some (.string text) => some ⟨text⟩
  | some _ => none

def bracketsOf? (entries : Toml.Entries) : Option Brackets :=
  match valueAt "default_brackets".toList entries with
  | none => some default.brackets
  | some (.string text) => Brackets.ofText? text
  | some _ => none

/-- The settings that a document's root table gives. -/
def ofEntries? (entries : Toml.Entries) : Option Settings := do
  let layout ← layoutOf? entries
  let saveLocation ← saveLocationOf? entries
  let brackets ← bracketsOf? entries
  some ⟨layout, saveLocation, brackets⟩

def ofText? (text : Text) : Option Settings := (Toml.parse? text).bind ofEntries?

/-- Reads settings from a file. -/
def load {m : Type → Type} [Monad m] [FileAccess m] (path : Path) :
    m (Except SettingsError Settings) := do
  match ← FileAccess.readText path with
  | .error e => return .error (.unreadable path e)
  | .ok text =>
    match ofText? text with
    | some settings => return .ok settings
    | none => return .error (.invalid path)

end Settings

end MathMarkup
