import Mathlib
import MathMarkup.Store.Memory

/-!
# The texts of a memory store

A store in memory as a function from keys to texts, of which an insertion changes one value.
-/
namespace MathMarkup.MemoryStore

/-- The text of a key. -/
def text? (store : MemoryStore) (key : List Path.Component) : Option Text :=
  valueAt key store.files

def readText (store : MemoryStore) (path : Path) : Except StoreError Text :=
  (store.get? path).elim (.error .notFound) .ok

theorem run_readText (store : MemoryStore) (path : Path) :
    StateT.run (m := Id) (FileAccess.readText path) store = (store.readText path, store) := by
  simp only [readText, StateT.run, FileAccess.readText]
  cases store.get? path <;> rfl

theorem text?_insert (store : MemoryStore) (path : Path) (text : Text) :
    (store.insert path text).text? = Function.update store.text? path.components (some text) := by
  funext key
  rw [text?, insert, valueAt_assign]
  by_cases hkey : key = path.components
  · rw [hkey, if_pos rfl, Function.update_self]
  · rw [if_neg (Ne.symm hkey), Function.update_of_ne hkey]
    rfl

end MathMarkup.MemoryStore
