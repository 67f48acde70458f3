import MathMarkup.Text.Basic

/-!
# Occurrences

Cutting a text in two at the first or at the last occurrence of a marker. Occurrences may overlap,
and the empty marker occurs everywhere.
-/
namespace MathMarkup.Text

/-- Cuts right after the first occurrence of a marker. -/
def cutAfterFirst (marker text : Text) : Option (Text × Text) :=
  if marker.isPrefixOf text then some (marker, text.drop marker.length)
  else
    match text with
    | [] => none
    | c :: rest => (cutAfterFirst marker rest).map fun (before, after) => (c :: before, after)

/-- Cuts right before the last occurrence of a marker. -/
def cutBeforeLast (marker text : Text) : Option (Text × Text) :=
  match text with
  | [] => if marker = [] then some ([], []) else none
  | c :: rest =>
    match cutBeforeLast marker rest with
    | some (before, after) => some (c :: before, after)
    | none => if marker.isPrefixOf (c :: rest) then some ([], c :: rest) else none

end MathMarkup.Text
