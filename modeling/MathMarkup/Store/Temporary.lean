import MathMarkup.Store.FileTree

/-!
# Temporary files

How a text comes to replace another one whole: it is written to a new file beside its target, which
is moved over the target once it is complete, and is removed if that is never reached. What a tree
does not show, such as a full disk or a missing permission, may refuse every step. The word for a
failure is the system's, without the path of the temporary file.
-/
namespace MathMarkup

/-- The directory that holds the last component of a path. -/
def Path.directory (p : Path) : Path := p.directories.headD (ofString ".")

/-- What is done to a temporary file. -/
inductive Temporary.Step where
  | opened
  | filled
  | settled
  | moved
  deriving DecidableEq

/-- A temporary file: its name, the directory that relative paths are put in before it is opened,
and the steps that are refused for reasons of their own. -/
structure Temporary where
  name : Text
  base : Path
  refusal? : Temporary.Step → Option StoreError

/-- The path that a temporary file in a directory is opened by. -/
def Temporary.path (temporary : Temporary) (directory : Path) : Path :=
  (temporary.base.join directory).join ⟨temporary.name⟩

namespace FileTree

def erase (tree : FileTree) (place : Place) : FileTree :=
  ⟨tree.entries.filter fun entry => entry.1 ≠ place⟩

/-- The place of a new file in a directory. Its path has to be one that can be opened, also where
that of the file to be replaced is shorter; a name that is taken already is refused. -/
def openTemporary (tree : FileTree) (temporary : Temporary) (directory : Path) :
    Except StoreError Place :=
  match temporary.refusal? .opened with
  | some e => .error e
  | none =>
    match checkPath (temporary.path directory).text with
    | .error e => .error e
    | .ok () =>
      match tree.walk [] directory.parts with
      | .error e => .error e
      | .ok here =>
        match tree.child here temporary.name with
        | .error e => .error e
        | .ok (some _) => .error .alreadyExists
        | .ok none => .ok (here ++ [temporary.name])

/-- The place that a complete temporary file is moved to. Whether the path can be looked up comes
first, because a file that exists passes its mode on. -/
def landing (tree : FileTree) (temporary : Temporary) (path : Path) : Except StoreError Place :=
  match tree.lookup path with
  | .ok _ | .error .notFound =>
    match temporary.refusal? .settled with
    | some e => .error e
    | none =>
      match temporary.refusal? .moved with
      | some e => .error e
      | none => tree.destination path
  | .error e => .error e

/-- Replaces the text of a file by way of a temporary one. -/
def replaceThrough (temporary : Temporary) (tree : FileTree) (path : Path) (text : Text) :
    Except StoreError Unit × FileTree :=
  match tree.ensureDirectories path.directories with
  | (.error e, made) => (.error e, made)
  | (.ok (), made) =>
    match made.openTemporary temporary path.directory with
    | .error e => (.error e, made)
    | .ok source =>
      let opened := made.set source (.file (.text []))
      match temporary.refusal? .filled with
      | some e => (.error e, opened.erase source)
      | none =>
        let filled := opened.set source (.file (.text text))
        match filled.landing temporary path with
        | .error e => (.error e, filled.erase source)
        | .ok place => (.ok (), (filled.erase source).set place (.file (.text text)))

end FileTree

/-- Access to a file tree by way of a temporary file. -/
@[reducible]
def Temporary.access (temporary : Temporary) : FileAccess (StateM FileTree) where
  readText path := fun tree => (tree.readText path, tree)
  replaceText path text := fun tree => tree.replaceThrough temporary path text

end MathMarkup
