import MathMarkup.Document.Brackets
import MathMarkup.Expr.Render
import MathMarkup.Path

/-!
# Settings

How markup is laid out, where exports go, and which document markers they write unless told
otherwise.
-/
namespace MathMarkup

structure Settings where
  layout : Layout
  saveLocation : Path
  brackets : Brackets
  deriving DecidableEq

namespace Settings

/-- Compact layout, the working directory, no markers. -/
def default : Settings := ⟨.compact, Path.ofString ".", .empty⟩

/-- The path of a file in the save location. -/
def pathOf (settings : Settings) (filename : Text) : Path := settings.saveLocation.join ⟨filename⟩

/-- A text that only the pretty layout shows. -/
def prettyOnly (settings : Settings) (text : Text) : Text :=
  match settings.layout with
  | .compact => []
  | .pretty => text

end Settings

end MathMarkup
