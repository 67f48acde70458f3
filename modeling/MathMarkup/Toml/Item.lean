import MathMarkup.Number.Binary64
import MathMarkup.Store.Basic

/-!
# TOML tables

The data of a TOML document, and the rules by which keys and headers build it up: nothing is
defined twice, and a table can be extended only in the way it was begun.
-/
namespace MathMarkup.Toml

/-- What brought a table into being. -/
inductive Origin where
  | header
  | impliedByHeader
  | dottedKey
  | inlineTable
  deriving DecidableEq

inductive Item where
  | string (text : Text)
  | boolean (value : Bool)
  | integer (value : Int)
  | float (value : Binary64)
  | dateTime
  | array (items : List Item)
  | table (origin : Origin) (entries : List (Text × Item))
  | tableArray (elements : List (List (Text × Item)))

abbrev Entries := List (Text × Item)

/-- A dotted key: the tables on the way, and the key in the last of them. -/
structure Key where
  path : List Text
  last : Text

/-- Adds a value to the table that a dotted key leads to. On the way, dotted keys create tables and
may enter those that no header has defined. The table reached has to be the one the key starts
from, or one that dotted keys created. -/
def addValue (reached : Bool) (key : Text) (value : Item) :
    List Text → Entries → Option Entries
  | [], entries =>
    if reached && (valueAt key entries).isNone then some (entries ++ [(key, value)]) else none
  | name :: path, entries =>
    match valueAt name entries with
    | none =>
      (addValue true key value path []).map fun inner =>
        entries ++ [(name, .table .dottedKey inner)]
    | some (.table .dottedKey inner) =>
      (addValue true key value path inner).map fun inner =>
        assign name (.table .dottedKey inner) entries
    | some (.table .impliedByHeader inner) =>
      (addValue false key value path inner).map fun inner =>
        assign name (.table .impliedByHeader inner) entries
    | some (.tableArray elements) =>
      match elements.getLast? with
      | some inner =>
        (addValue false key value path inner).map fun inner =>
          assign name (.tableArray (elements.dropLast ++ [inner])) entries
      | none => none
    | some _ => none

/-- Changes the table that a header leads to. The tables on the way are created if missing; an
array of tables is entered at its last element. -/
def changeTable (change : Entries → Option Entries) : List Text → Entries → Option Entries
  | [], entries => change entries
  | name :: path, entries =>
    match valueAt name entries with
    | none =>
      (changeTable change path []).map fun inner =>
        entries ++ [(name, .table .impliedByHeader inner)]
    | some (.table .inlineTable _) => none
    | some (.table origin inner) =>
      (changeTable change path inner).map fun inner => assign name (.table origin inner) entries
    | some (.tableArray elements) =>
      match elements.getLast? with
      | some inner =>
        (changeTable change path inner).map fun inner =>
          assign name (.tableArray (elements.dropLast ++ [inner])) entries
      | none => none
    | some _ => none

/-- A header defines a table that is missing or only implied by other headers. -/
def defineTable (key : Key) (root : Entries) : Option Entries :=
  changeTable (fun parent =>
    match valueAt key.last parent with
    | none => some (assign key.last (.table .header []) parent)
    | some (.table .impliedByHeader inner) => some (assign key.last (.table .header inner) parent)
    | some _ => none) key.path root

/-- A header in double brackets adds an element to an array of tables. -/
def defineElement (key : Key) (root : Entries) : Option Entries :=
  changeTable (fun parent =>
    match valueAt key.last parent with
    | none => some (assign key.last (.tableArray [[]]) parent)
    | some (.tableArray elements) =>
      some (assign key.last (.tableArray (elements ++ [[]])) parent)
    | some _ => none) key.path root

/-- The entries that a list of dotted keys and values gives a new table. -/
def entriesOf (pairs : List (Key × Item)) : Option Entries :=
  pairs.foldlM (fun entries (key, value) => addValue true key.last value key.path entries) []

/-- A line of a document. -/
inductive Statement where
  | pair (key : Key) (value : Item)
  | table (key : Key)
  | element (key : Key)

/-- Carries out statements from the first on; `current` leads to the table that pairs go to. -/
def build (current : List Text) (root : Entries) : List Statement → Option Entries
  | [] => some root
  | .pair key value :: rest =>
    match changeTable (addValue true key.last value key.path) current root with
    | some root => build current root rest
    | none => none
  | .table key :: rest =>
    match defineTable key root with
    | some root => build (key.path ++ [key.last]) root rest
    | none => none
  | .element key :: rest =>
    match defineElement key root with
    | some root => build (key.path ++ [key.last]) root rest
    | none => none

end MathMarkup.Toml
