import MathMarkup.Store.Basic
import MathMarkup.Text.Bytes

/-!
# File trees

Files in directories, below a working directory that is its own parent. Paths are resolved part by
part, and a path that cannot be resolved says why. Replacing a text creates the directories it
needs, and then either sets the file or leaves all files as they are. Files have no modes and no
owners, and there are no links.
-/
namespace MathMarkup

/-- What a file holds: a text, or bytes that are no text. -/
inductive Content where
  | text (text : Text)
  | binary (bytes : List UInt8)
  deriving DecidableEq

def Content.readText : Content → Except StoreError Text
  | text t => .ok t
  | binary _ => .error .invalidText

/-- The names on the way from the working directory. -/
abbrev Place := List Text

inductive FileTree.Entry where
  | directory
  | file (content : Content)
  deriving DecidableEq

structure FileTree where
  entries : List (Place × FileTree.Entry)

namespace FileTree

def empty : FileTree := ⟨[]⟩

/-- What stands at a place; the working directory always does. -/
def get? (tree : FileTree) : Place → Option Entry
  | [] => some .directory
  | place => valueAt place tree.entries

def set (tree : FileTree) (place : Place) (entry : Entry) : FileTree :=
  ⟨assign place entry tree.entries⟩

theorem get?_set (tree : FileTree) {place : Place} (h : place ≠ []) (entry : Entry) (p : Place) :
    (tree.set place entry).get? p = if place = p then some entry else tree.get? p := by
  cases p with
  | nil => simp [get?, h]
  | cons first rest => exact valueAt_assign ..

/-! ## Resolving paths -/

/-- The longest name of a file, in bytes. -/
def nameLimit : Nat := 255

/-- The longest path, in bytes. -/
def pathLimit : Nat := 4095

/-- Refuses the paths that name nothing in any tree. -/
def checkPath (path : Text) : Except StoreError Unit :=
  if '\x00' ∈ path then .error .nulInName
  else if pathLimit < path.byteCount then .error .nameTooLong
  else if path = [] then .error .notFound
  else .ok ()

/-- What a name stands for in a directory. -/
def child (tree : FileTree) (here : Place) (name : Text) : Except StoreError (Option Entry) :=
  if nameLimit < name.byteCount then .error .nameTooLong else .ok (tree.get? (here ++ [name]))

/-- Follows parts that all have to lead to directories. -/
def walk (tree : FileTree) (here : Place) : List Text → Except StoreError Place
  | [] => .ok here
  | part :: rest =>
    match Path.Component.ofPart? part with
    | some (.name name) =>
      match tree.child here name with
      | .error e => .error e
      | .ok none => .error .notFound
      | .ok (some (.file _)) => .error .notDirectory
      | .ok (some .directory) => tree.walk (here ++ [name]) rest
    | some .parent => tree.walk here.dropLast rest
    | _ => tree.walk here rest

/-- What a path leads to. -/
def lookup (tree : FileTree) (path : Path) : Except StoreError Entry :=
  match checkPath path.text with
  | .error e => .error e
  | .ok () =>
    match tree.walk [] path.parts.dropLast with
    | .error e => .error e
    | .ok here =>
      match path.parts.getLast?.bind Path.Component.ofPart? with
      | some (.name name) =>
        match tree.child here name with
        | .error e => .error e
        | .ok none => .error .notFound
        | .ok (some entry) => .ok entry
      | _ => .ok .directory

def isDirectory (tree : FileTree) (path : Path) : Bool :=
  match tree.lookup path with
  | .ok .directory => true
  | _ => false

def readText (tree : FileTree) (path : Path) : Except StoreError Text :=
  match tree.lookup path with
  | .error e => .error e
  | .ok .directory => .error .isDirectory
  | .ok (.file content) => content.readText

/-! ## Creating directories -/

/-- Creates one directory. -/
def makeDirectory (tree : FileTree) (path : Path) : Except StoreError FileTree :=
  match checkPath path.text with
  | .error e => .error e
  | .ok () =>
    match tree.walk [] path.parts.dropLast with
    | .error e => .error e
    | .ok here =>
      match path.parts.getLast?.bind Path.Component.ofPart? with
      | some (.name name) =>
        match tree.child here name with
        | .error e => .error e
        | .ok (some _) => .error .alreadyExists
        | .ok none => .ok (tree.set (here ++ [name]) .directory)
      | _ => .error .alreadyExists

/-- Creates a directory whose parents exist, unless it exists already. -/
def ensureDirectory (tree : FileTree) (path : Path) : Except StoreError Unit × FileTree :=
  match tree.makeDirectory path with
  | .ok made => (.ok (), made)
  | .error e => if tree.isDirectory path then (.ok (), tree) else (.error e, tree)

/-- Creates the first of some directories, and those of the others that are missing; each holds the
one before it. What was created stays, also when a later one cannot be. -/
def ensureDirectories (tree : FileTree) : List Path → Except StoreError Unit × FileTree
  | [] => (.ok (), tree)
  | path :: above =>
    match tree.makeDirectory path with
    | .error .notFound =>
      match tree.ensureDirectories above with
      | (.error e, made) => (.error e, made)
      | (.ok (), made) => made.ensureDirectory path
    | _ => tree.ensureDirectory path

/-! ## Replacing a file -/

/-- Whether a path ends in a slash, which only directories may. -/
def endsInSlash (path : Path) : Bool := path.text.getLast? = some '/'

/-- The place that a file moved to the path would take. -/
def destination (tree : FileTree) (path : Path) : Except StoreError Place :=
  let parts := (path.parts.reverse.dropWhile (· = [])).reverse
  match checkPath path.text with
  | .error e => .error e
  | .ok () =>
    match tree.walk [] parts.dropLast with
    | .error e => .error e
    | .ok here =>
      match parts.getLast?.bind Path.Component.ofPart? with
      | some (.name name) =>
        match tree.child here name with
        | .error e => .error e
        | .ok found =>
          if endsInSlash path then .error .notDirectory
          else if found = some .directory then .error .isDirectory
          else .ok (here ++ [name])
      | _ => .error .busy

/-- Replaces the text of a file, or creates it. Its directory comes first; then the path must be
one that a file can take. -/
def replaceText (tree : FileTree) (path : Path) (text : Text) :
    Except StoreError Unit × FileTree :=
  match tree.ensureDirectories path.directories with
  | (.error e, made) => (.error e, made)
  | (.ok (), made) =>
    match made.lookup path with
    | .ok _ | .error .notFound =>
      match made.destination path with
      | .error e => (.error e, made)
      | .ok place => (.ok (), made.set place (.file (.text text)))
    | .error e => (.error e, made)

instance : FileAccess (StateM FileTree) where
  readText path := fun tree => (tree.readText path, tree)
  replaceText path text := fun tree => tree.replaceText path text

/-! ## Building trees -/

/-- Sets an entry, with the directories above it. -/
def insert (tree : FileTree) (path : Path) : Entry → FileTree
  | .directory => (tree.ensureDirectories path.ancestors).2
  | .file content =>
    let made := (tree.ensureDirectories path.directories).2
    match made.destination path with
    | .ok place => made.set place (.file content)
    | .error _ => made

def ofEntries (entries : List (Path × Entry)) : FileTree :=
  entries.foldl (fun tree (path, entry) => tree.insert path entry) empty

end FileTree

end MathMarkup
