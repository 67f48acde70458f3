import MathMarkup.Document.Splice
import MathMarkup.Document.Template
import MathMarkup.Settings
import MathMarkup.Store.Basic

/-!
# Exports

Writing content to a file in the save location: over the whole file, or into the body of the
document that it holds. An export either writes the whole new text or fails before it writes.
-/
namespace MathMarkup

inductive WriteMode where
  | override
  | afterBegin
  | beforeEnd
  deriving DecidableEq

def WriteMode.splice : WriteMode → Splice
  | override => .replace
  | afterBegin => .after documentBegin
  | beforeEnd => .before documentEnd

/-- Without a bracket set of its own an export uses that of the settings. -/
structure ExportOptions where
  mode : WriteMode
  format : Format
  brackets : Option Brackets
  deriving DecidableEq

namespace ExportOptions

/-- Plain text over the whole file. -/
def plain : ExportOptions := ⟨.override, .plain, none⟩

/-- A document with both markers over the whole file. -/
def document : ExportOptions := ⟨.override, .document, some .both⟩

end ExportOptions

inductive ExportError where
  | missingAnchor (marker : Text) (path : Path)
  | store (path : Path) (error : StoreError)
  deriving DecidableEq

def ExportError.message : ExportError → String
  | missingAnchor marker path =>
    "Missing anchor '" ++ String.ofList marker ++ "' in " ++ String.ofList path.text
  | store path e => "IO error on " ++ String.ofList path.text ++ ": " ++ e.message

/-- The path that an export writes to. The format's extension is given to the path in the save
location if the file name has none. -/
def targetPath (filename : Text) (format : Format) (settings : Settings) : Path :=
  let path := settings.pathOf filename
  match (Path.mk filename).extension? with
  | some _ => path
  | none => path.withExtension format.extension

/-- The content of an export with its document markers. -/
def ExportOptions.wrap (options : ExportOptions) (settings : Settings) (content : Text) : Text :=
  options.format.wrap (options.brackets.getD settings.brackets) settings.layout content

/-- The text that an export leaves in a file which holds the given text. -/
def ExportOptions.textOver (options : ExportOptions) (path : Path) (existing wrapped : Text) :
    Except ExportError Text :=
  match options.mode.splice.result? existing wrapped with
  | some text => .ok text
  | none => .error (.missingAnchor (options.mode.splice.anchor?.getD []) path)

/-- Writes the text of an export, and gives it back. -/
def writeExport {m : Type → Type} [Monad m] [FileAccess m] (path : Path) (text : Text) :
    m (Except ExportError Text) := do
  match ← FileAccess.replaceText path text with
  | .ok () => return .ok text
  | .error e => return .error (.store path e)

/-- Writes content to a file in the save location; the answer is the whole text of the file.
Only an insertion reads the file first, and a missing file counts as empty. -/
def exportText {m : Type → Type} [Monad m] [FileAccess m] (settings : Settings)
    (options : ExportOptions) (filename content : Text) : m (Except ExportError Text) := do
  let path := targetPath filename options.format settings
  let wrapped := options.wrap settings content
  match options.mode.splice.anchor? with
  | none => writeExport path wrapped
  | some _ =>
    match ← FileAccess.readText? path with
    | .error e => return .error (.store path e)
    | .ok existing =>
      match options.textOver path (existing.getD []) wrapped with
      | .error e => return .error e
      | .ok text => writeExport path text

end MathMarkup
