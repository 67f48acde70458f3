import MathMarkup.Path

/-!
# Stores

Whole texts are read from a store and replaced in it. Programs are written for any monad that
gives access to one; the stores of this library are values, and the access is a state monad.
-/
namespace MathMarkup

/-- Why a store refuses an operation. -/
inductive StoreError where
  | notFound
  | alreadyExists
  | notDirectory
  | isDirectory
  | nameTooLong
  | busy
  | invalidText
  | nulInName
  | other (description : String)
  deriving DecidableEq

namespace StoreError

def message : StoreError → String
  | notFound => "No such file or directory (os error 2)"
  | alreadyExists => "File exists (os error 17)"
  | notDirectory => "Not a directory (os error 20)"
  | isDirectory => "Is a directory (os error 21)"
  | nameTooLong => "File name too long (os error 36)"
  | busy => "Device or resource busy (os error 16)"
  | invalidText => "stream did not contain valid UTF-8"
  | nulInName => "file name contained an unexpected NUL byte"
  | other description => description

end StoreError

/-- Access to a store: a text is read whole, and replaced whole or not at all. -/
class FileAccess (m : Type → Type) where
  readText : Path → m (Except StoreError Text)
  replaceText : Path → Text → m (Except StoreError Unit)

namespace FileAccess

/-- Reads a text that may be missing. -/
def readText? {m : Type → Type} [Monad m] [FileAccess m] (path : Path) :
    m (Except StoreError (Option Text)) := do
  match ← readText path with
  | .ok text => return .ok (some text)
  | .error .notFound => return .ok none
  | .error e => return .error e

end FileAccess

/-- Sets the value of a key, in the place where the key stands already if it does. -/
def assign {κ α : Type} [DecidableEq κ] (key : κ) (value : α) : List (κ × α) → List (κ × α)
  | [] => [(key, value)]
  | (k, v) :: rest => if k = key then (key, value) :: rest else (k, v) :: assign key value rest

/-- The value of a key. -/
def valueAt {κ α : Type} [DecidableEq κ] (key : κ) : List (κ × α) → Option α
  | [] => none
  | (k, v) :: rest => if k = key then some v else valueAt key rest

@[simp]
theorem valueAt_assign {κ α : Type} [DecidableEq κ] (key k : κ) (value : α)
    (table : List (κ × α)) :
    valueAt k (assign key value table) = if key = k then some value else valueAt k table := by
  induction table with
  | nil => simp [assign, valueAt]
  | cons entry rest ih =>
    obtain ⟨j, v⟩ := entry
    simp only [assign]
    split
    · next h => subst h; simp only [valueAt]; split <;> rfl
    · next h =>
      simp only [valueAt, ih]
      split
      · next hj => subst hj; simp [Ne.symm h]
      · rfl

end MathMarkup
