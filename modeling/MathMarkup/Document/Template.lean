import MathMarkup.Document.Brackets
import MathMarkup.Expr.Render

/-!
# Templates

What kind of file an export writes: the extension of its name, and whether document markers stand
around the content.
-/
namespace MathMarkup

/-- Opens the body of a document. -/
def documentBegin : Text := "\\begin\x7bdocument\x7d".toList

/-- Closes the body of a document. -/
def documentEnd : Text := "\\end\x7bdocument\x7d".toList

inductive Format where
  | plain
  | markdown
  | fragment
  | document
  deriving DecidableEq

namespace Format

/-- The extension of a file name that has none. -/
def extension : Format → Text
  | plain => "txt".toList
  | markdown => "md".toList
  | fragment | document => "tex".toList

/-- Whether the document markers asked for are written. -/
def hasMarkers : Format → Bool
  | document => true
  | plain | markdown | fragment => false

/-- The pretty layout sets each marker on a line of its own. -/
def markerSeparator : Layout → Text
  | .compact => []
  | .pretty => ['\n']

/-- The content with the document markers that the format and the bracket set ask for. -/
def wrap (format : Format) (brackets : Brackets) (layout : Layout) (content : Text) : Text :=
  if format.hasMarkers then
    (if brackets.hasOpening then documentBegin ++ markerSeparator layout else []) ++ content ++
      (if brackets.hasClosing then markerSeparator layout ++ documentEnd else [])
  else content

end Format

end MathMarkup
