import MathMarkup.Document.Export
import MathMarkup.SettingsFile
import MathMarkup.Value.Basic

/-!
# Sessions

Steps taken one after the other on one store and one set of settings. A step that fails leaves the
settings as they are, and the session goes on.
-/
namespace MathMarkup.Session

inductive Step where
  | exportText (options : ExportOptions) (filename content : Text)
  | convert (value : Value)
  | prettyOnly (text : Text)
  | configure (layout : Option Layout) (saveLocation : Option Path) (brackets : Option Brackets)
  | loadSettings (path : Path)
  | read (path : Path)
  | write (path : Path) (text : Text)

/-- What a step that succeeds answers with. -/
inductive Answer where
  | exported (path : Path) (text : Text)
  | text (text : Text)
  | settings (settings : Settings)
  | contents (text : Option Text)
  | written
  deriving DecidableEq

inductive Failure where
  | exporting (error : ExportError)
  | conversion (error : ConversionError)
  | settings (error : SettingsError)
  | store (error : StoreError)
  deriving DecidableEq

/-- Changes those settings that are given. -/
def configured (settings : Settings) (layout : Option Layout) (saveLocation : Option Path)
    (brackets : Option Brackets) : Settings :=
  ⟨layout.getD settings.layout, saveLocation.getD settings.saveLocation,
    brackets.getD settings.brackets⟩

section

variable {m : Type → Type} [Monad m] [FileAccess m]

/-- Takes one step; the settings after it come with its answer. -/
def step (settings : Settings) : Step → m (Except Failure Answer × Settings)
  | .exportText options filename content => do
    match ← MathMarkup.exportText settings options filename content with
    | .error e => return (.error (.exporting e), settings)
    | .ok text =>
      return (.ok (.exported (targetPath filename options.format settings) text), settings)
  | .convert value =>
    match value.render settings.layout with
    | .error e => return (.error (.conversion e), settings)
    | .ok markup => return (.ok (.text markup), settings)
  | .prettyOnly text => return (.ok (.text (settings.prettyOnly text)), settings)
  | .configure layout saveLocation brackets =>
    let changed := configured settings layout saveLocation brackets
    return (.ok (.settings changed), changed)
  | .loadSettings path => do
    match ← Settings.load path with
    | .error e => return (.error (.settings e), settings)
    | .ok loaded => return (.ok (.settings loaded), loaded)
  | .read path => do
    match ← FileAccess.readText? path with
    | .error e => return (.error (.store e), settings)
    | .ok contents => return (.ok (.contents contents), settings)
  | .write path text => do
    match ← FileAccess.replaceText path text with
    | .error e => return (.error (.store e), settings)
    | .ok () => return (.ok .written, settings)

/-- Takes all steps; the answers come in their order. -/
def run (settings : Settings) : List Step → m (List (Except Failure Answer))
  | [] => return []
  | s :: steps => do
    let (answer, settings) ← step settings s
    return answer :: (← run settings steps)

end

end MathMarkup.Session
