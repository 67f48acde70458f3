import MathMarkup.CommandLine.Run

/-!
# The command

Access to the files of the machine, and the program itself.
-/
namespace MathMarkup.Machine

-- powers of natural numbers are the core library's, whatever else is imported
attribute [local instance (high)] instPowNat

/-- The store's word for a failure of the machine. -/
def storeError (e : IO.Error) : StoreError :=
  match e with
  | .noFileOrDirectory _ _ _ => .notFound
  | .alreadyExists _ _ _ => .alreadyExists
  | .resourceBusy _ _ => .busy
  | .inappropriateType _ code _ => if code = 21 then .isDirectory else .notDirectory
  | .invalidArgument _ code _ => if code = 36 then .nameTooLong else .other (toString e)
  | e => .other (toString e)

def contentOf (bytes : ByteArray) : Content :=
  match String.fromUTF8? bytes with
  | some s => .text s.toList
  | none => .binary bytes.toList

def attempt {α : Type} (action : IO α) : IO (Except StoreError α) := do
  match ← action.toBaseIO with
  | .ok a => return .ok a
  | .error e => return .error (storeError e)

def readText (path : Path) : IO (Except StoreError Text) := do
  if '\x00' ∈ path.text then return .error .nulInName
  match ← attempt (IO.FS.readBinFile (String.ofList path.text)) with
  | .ok bytes => return (contentOf bytes).readText
  | .error e => return .error e

def isDirectory (path : String) : IO Bool := do
  match ← attempt (IO.FS.readBinFile path) with
  | .error .isDirectory => return true
  | _ => return false

/-- Creates a directory unless it exists already. -/
def ensureDirectory (path : String) : IO Unit := do
  try IO.FS.createDir path
  catch e => unless ← isDirectory path do throw e

/-- Creates the first of some directories, and those of the others that are missing. -/
def ensureDirectories : List Path → IO Unit
  | [] => return ()
  | first :: above => do
    let path : String := String.ofList first.text
    try ensureDirectory path
    catch
      | .noFileOrDirectory _ _ _ => do
        ensureDirectories above
        ensureDirectory path
      | e => throw e

/-- Writes a new file beside the target and moves it there. The new file has the mode of any file
that is created, also in the place of one with another mode, and is not forced to the disk before it
is moved: neither can be asked for here. -/
def moveInto (directory target : String) (text : Text) : IO Unit := do
  let new := directory ++ "/.tmp" ++ toString (← IO.rand 0 (10 ^ (18 : Nat)))
  try
    let handle ← IO.FS.Handle.mk new .writeNew
    handle.putStr (String.ofList text)
    handle.flush
    IO.FS.rename new target
  catch e =>
    try IO.FS.removeFile new catch _ => pure ()
    throw e

def replaceText (path : Path) (text : Text) : IO (Except StoreError Unit) :=
  if '\x00' ∈ path.text then return .error .nulInName
  else attempt do
    ensureDirectories path.directories
    let directory : String := String.ofList ((path.directories.head?.map Path.text).getD ['.'])
    moveInto directory (String.ofList path.text) text

instance : FileAccess IO where
  readText := readText
  replaceText := replaceText

/-- What standard input holds, unless it is a terminal. -/
def standardInput : IO (Option Content) := do
  let stdin ← IO.getStdin
  if ← stdin.isTty then return none
  return some (contentOf (← stdin.readBinToEnd))

end MathMarkup.Machine

def main (words : List String) : IO UInt32 := do
  let outcome ← MathMarkup.CommandLine.run MathMarkup.Machine.standardInput
    (words.map String.toList)
  IO.print (String.ofList outcome.stdout)
  IO.eprint (String.ofList outcome.stderr)
  return UInt32.ofNat outcome.code
