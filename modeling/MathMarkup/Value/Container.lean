import MathMarkup.Value.Error

/-!
# Vectors and matrices

A container is written row by row inside a matrix environment, cells joined by `&` and rows by a
double backslash. The pretty layout gives each row a line of its own.
-/
namespace MathMarkup

namespace Container

/-- The text of one element. -/
def cell (v : Binary64) : Except ConversionError Text :=
  if v.isFinite then
    match v.render with
    | .error e => .error (.render e)
    | .ok text => .ok text
  else .error (.evaluation (.element v))

def row : List Binary64 → Except ConversionError (List Text)
  | [] => .ok []
  | v :: vs =>
    match cell v with
    | .error e => .error e
    | .ok text =>
      match row vs with
      | .error e => .error e
      | .ok texts => .ok (text :: texts)

/-- The texts of all elements, checked row by row. -/
def cells : List (List Binary64) → Except ConversionError (List (List Text))
  | [] => .ok []
  | vs :: rows =>
    match row vs with
    | .error e => .error e
    | .ok texts =>
      match cells rows with
      | .error e => .error e
      | .ok rest => .ok (texts :: rest)

/-- The text of one row, without what ends it. -/
def rowText : Layout → List Text → Text
  | .compact, texts => Text.join "&".toList texts
  | .pretty, texts => '\n' :: Text.join " & ".toList texts ++ [' ']

/-- The rows of an environment; a double backslash stands after every row but the last. -/
def body (layout : Layout) (rows : List (List Text)) : Text :=
  Text.join "\\\\".toList (rows.map (rowText layout)) ++
    match layout with
    | .compact => []
    | .pretty => ['\n']

def environment (name : Text) (layout : Layout) (rows : List (List Text)) : Text :=
  "\\begin\x7b".toList ++ name ++ "\x7d".toList ++ body layout rows ++
    "\\end\x7b".toList ++ name ++ "\x7d".toList

/-- The markup of rows of which at least the first has an element. -/
def render (kind : ContainerKind) (layout : Layout) :
    List (List Binary64) → Except ConversionError Text
  | [] | [] :: _ => .error (.emptyContainer kind)
  | rows =>
    match cells rows with
    | .error e => .error e
    | .ok texts => .ok (environment kind.environment layout texts)

end Container

/-- A column vector has one element in each row. -/
def renderVector (layout : Layout) (values : List Binary64) : Except ConversionError Text :=
  Container.render .vector layout (values.map fun v => [v])

def renderMatrix (layout : Layout) (rows : List (List Binary64)) : Except ConversionError Text :=
  Container.render .matrix layout rows

end MathMarkup
