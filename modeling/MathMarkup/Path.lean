import MathMarkup.Text.Basic

/-!
# Paths

File paths with `/` between their parts. Empty parts and parts of one dot say nothing, except for
a dot at the very start; two dots are kept as they are, because only a file tree can resolve them.
-/
namespace MathMarkup

structure Path where
  text : Text
  deriving DecidableEq

inductive Path.Component where
  | root
  | current
  | parent
  | name (text : Text)
  deriving DecidableEq

namespace Path

def ofString (s : String) : Path := ⟨s.toList⟩

/-- What a part says that does not stand at the start of a relative path. -/
def Component.ofPart? (part : Text) : Option Component :=
  if part = [] ∨ part = ['.'] then none
  else if part = ['.', '.'] then some parent
  else some (name part)

def isAbsolute (p : Path) : Bool := p.text.head? = some '/'

/-- The parts between the slashes, those that say nothing included. -/
def parts (p : Path) : List Text := p.text.split '/'

def components (p : Path) : List Component :=
  match p.parts with
  | [] => []
  | first :: rest =>
    (if p.isAbsolute then [.root]
      else if first = ['.'] then [.current]
      else (Component.ofPart? first).toList) ++ rest.filterMap Component.ofPart?

/-- The path of some parts, and of the parts before each that says something; all parts come from
the last one on. -/
def ancestorsOf : List Text → List Path
  | [] => []
  | [first] => if first = [] then [⟨['/']⟩] else [⟨first⟩]
  | part :: before =>
    if Component.ofPart? part = none then ancestorsOf before
    else ⟨Text.join ['/'] (part :: before).reverse⟩ :: ancestorsOf before

/-- A path and the directories above it, from the path itself up, each as it is written. -/
def ancestors (p : Path) : List Path := if p.text = [] then [] else ancestorsOf p.parts.reverse

/-- The directories above a path, from the one that holds its last component up. -/
def directories (p : Path) : List Path :=
  match p.ancestors.tail with
  | [] => [ofString "."]
  | above => above

/-- The last component, if it is a name. -/
def fileName? (p : Path) : Option Text :=
  match p.components.getLast? with
  | some (.name text) => some text
  | _ => none

/-- A file name's stem, and what follows its last dot. A dot at the start of the name begins no
extension. -/
def splitExtension (name : Text) : Text × Option Text :=
  match name.reverse.dropWhile (· ≠ '.') with
  | '.' :: c :: stem =>
    ((c :: stem).reverse, some (name.reverse.takeWhile (· ≠ '.')).reverse)
  | _ => (name, none)

def extension? (p : Path) : Option Text :=
  match p.fileName? with
  | some name => (splitExtension name).2
  | none => none

/-- A path relative to a directory; an absolute one stays as it is. -/
def join (directory p : Path) : Path :=
  if p.isAbsolute then p
  else if directory.text = [] ∨ directory.text.getLast? = some '/' then
    ⟨directory.text ++ p.text⟩
  else ⟨directory.text ++ '/' :: p.text⟩

/-- Gives the file name an extension, in place of the one it has. What stands after the file name
is dropped; a path without a file name stays as it is. -/
def withExtension (p : Path) (extension : Text) : Path :=
  match p.fileName?, p.parts.reverse.dropWhile (fun part => Component.ofPart? part = none) with
  | some name, _ :: before =>
    ⟨Text.join ['/'] (before.reverse ++ [(splitExtension name).1 ++ '.' :: extension])⟩
  | _, _ => p

end Path

end MathMarkup
