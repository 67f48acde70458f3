import MathMarkup.Store.Basic

/-!
# Memory stores

A table of texts. Paths with equal components are the same key.
-/
namespace MathMarkup

structure MemoryStore where
  files : List (List Path.Component × Text)

namespace MemoryStore

def empty : MemoryStore := ⟨[]⟩

def get? (store : MemoryStore) (path : Path) : Option Text := valueAt path.components store.files

def insert (store : MemoryStore) (path : Path) (text : Text) : MemoryStore :=
  ⟨assign path.components text store.files⟩

instance : FileAccess (StateM MemoryStore) where
  readText path := fun store =>
    match store.get? path with
    | some text => (.ok text, store)
    | none => (.error .notFound, store)
  replaceText path text := fun store => (.ok (), store.insert path text)

end MemoryStore

end MathMarkup
