import MathMarkup.Text.Search

/-!
# Splices

Ways of putting a text into an existing one: in its place, after the first occurrence of a marker,
or before the last one.
-/
namespace MathMarkup

inductive Splice where
  | replace
  | after (marker : Text)
  | before (marker : Text)
  deriving DecidableEq

namespace Splice

/-- The marker that the existing text has to contain. -/
def anchor? : Splice → Option Text
  | replace => none
  | after marker => some marker
  | before marker => some marker

/-- The spliced text, unless the marker is missing. -/
def result? (splice : Splice) (existing insert : Text) : Option Text :=
  match splice with
  | replace => some insert
  | after marker => (Text.cutAfterFirst marker existing).map fun (p, q) => p ++ insert ++ q
  | before marker => (Text.cutBeforeLast marker existing).map fun (p, q) => p ++ insert ++ q

end Splice

end MathMarkup
