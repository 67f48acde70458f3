import Mathlib
import MathMarkup.Proofs.Store.Memory
import MathMarkup.Proofs.Store.Plain
import MathMarkup.Proofs.Store.Temporary

/-!
# File trees that mirror a store in memory

Where files are kept at plain paths of which none leads through another, a file tree is as good as a
table of texts: what is read is the same, and every text can be written.
-/
namespace MathMarkup

/-- Files can be kept at all of these paths: they are plain, none is too long, and none is a
directory above another. -/
structure Path.Coexist (used : List Path) : Prop where
  plain : ∀ p ∈ used, p.IsPlain
  short : ∀ p ∈ used, p.IsShort
  apart : ∀ p ∈ used, ∀ q ∈ used, p.parts <+: q.parts → p = q

/-- The store of some files; a later one replaces an earlier one at the same path. -/
def MemoryStore.ofFiles (files : List (Path × Text)) : MemoryStore :=
  files.foldl (fun store file => store.insert file.1 file.2) empty

/-- The tree of some text files, with the directories above them. -/
def FileTree.ofFiles (files : List (Path × Text)) : FileTree :=
  ofEntries (files.map fun file => (file.1, .file (.text file.2)))

/-- The tree holds the texts of the store, all at used paths, and no directories but those above
used paths. -/
structure Mirrors (used : List Path) (store : MemoryStore) (tree : FileTree) : Prop where
  files : ∀ place, tree.file? place = (store.text? (place.map .name)).map .text
  keys : ∀ key text, store.text? key = some text → ∃ p ∈ used, key = p.parts.map .name
  directories : ∀ place, place ≠ [] → tree.get? place = some .directory →
    ∃ p ∈ used, place <+: p.parts.dropLast
  closed : tree.IsClosed

theorem Path.map_name_injective : Function.Injective (List.map Component.name) :=
  List.map_injective_iff.2 fun _ _ h => Component.name.inj h

namespace Mirrors

variable {used : List Path} {store : MemoryStore} {tree made : FileTree} {p : Path}

theorem exists_of_file? (h : Mirrors used store tree) {place : Place} {content : Content}
    (hfile : tree.file? place = some content) : ∃ q ∈ used, place = q.parts := by
  rw [h.files, Option.map_eq_some_iff] at hfile
  obtain ⟨text, htext, -⟩ := hfile
  obtain ⟨q, hq, hkey⟩ := h.keys _ text htext
  exact ⟨q, hq, Path.map_name_injective hkey⟩

theorem isFree (h : Mirrors used store tree) (hused : Path.Coexist used) (hp : p ∈ used) :
    tree.IsFree p.parts.dropLast := by
  intro front hfront
  cases hfile : tree.file? front with
  | none => rfl
  | some content =>
    obtain ⟨q, hq, rfl⟩ := h.exists_of_file? hfile
    cases hused.apart q hq p hp (hfront.trans (List.dropLast_prefix p.parts))
    exact absurd hfront (FileTree.not_isPrefix_dropLast p)

theorem not_directory (h : Mirrors used store tree) (hused : Path.Coexist used) (hp : p ∈ used) :
    tree.get? p.parts ≠ some .directory := by
  intro hdirectory
  obtain ⟨q, hq, hfront⟩ := h.directories _ p.parts_ne_nil hdirectory
  cases hused.apart p hp q hq (hfront.trans (List.dropLast_prefix q.parts))
  exact FileTree.not_isPrefix_dropLast p hfront

/-! ## Reading -/

theorem readText_eq (h : Mirrors used store tree) (hused : Path.Coexist used) (hp : p ∈ used) :
    tree.readText p = store.readText p := by
  have hplain := hused.plain p hp
  have hfiles := h.files p.parts
  have htext : store.get? p = store.text? (p.parts.map .name) := by
    rw [← hplain.components]
    rfl
  rw [FileTree.readText, MemoryStore.readText, htext,
    FileTree.lookup_of_isPlain hplain (hused.short p hp) h.closed (h.isFree hused hp)]
  unfold FileTree.file? at hfiles
  cases hfound : tree.get? p.parts with
  | none =>
    rw [hfound] at hfiles
    rw [Option.map_eq_none_iff.1 hfiles.symm]
    rfl
  | some entry =>
    cases entry with
    | directory => exact absurd hfound (h.not_directory hused hp)
    | file content =>
      rw [hfound] at hfiles
      obtain ⟨text, hstored, rfl⟩ := Option.map_eq_some_iff.1 hfiles.symm
      rw [hstored]
      rfl

/-! ## Writing -/

theorem addsDirectories (h : Mirrors used store tree) (hused : Path.Coexist used) (hp : p ∈ used)
    (hadds : FileTree.AddsDirectories p.directories tree made) : Mirrors used store made where
  files place := by rw [hadds.file?_eq, h.files]
  keys := h.keys
  directories place hne hplace := by
    rcases hadds.added_of_isPlain (hused.plain p hp) hplace with htree | ⟨-, hfront, -⟩
    · exact h.directories place hne htree
    · exact ⟨p, hp, hfront⟩
  closed := hadds.isClosed (hused.plain p hp) h.closed

theorem set (h : Mirrors used store made) (hused : Path.Coexist used) (hp : p ∈ used)
    (hplace : made.destination p = .ok p.parts) (text : Text) :
    Mirrors used (store.insert p text) (made.set p.parts (.file (.text text))) where
  files place := by
    rw [FileTree.file?_set_file p.parts_ne_nil, store.text?_insert,
      (hused.plain p hp).components]
    by_cases heq : place = p.parts
    · rw [heq, Function.update_self, Function.update_self]
      rfl
    · rw [Function.update_of_ne heq, h.files,
        Function.update_of_ne fun hkey => heq (Path.map_name_injective hkey)]
  keys key other hother := by
    rw [store.text?_insert, (hused.plain p hp).components] at hother
    by_cases heq : key = p.parts.map .name
    · exact ⟨p, hp, heq⟩
    · rw [Function.update_of_ne heq] at hother
      exact h.keys key other hother
  directories place hne hdirectory :=
    h.directories place hne ((FileTree.directory_set_destination hplace _ place).1 hdirectory)
  closed := h.closed.set_destination (hused.plain p hp) hplace (.text text)

/-- Every text can be written, and the tree then mirrors the store that holds it. -/
theorem exists_set (h : Mirrors used store tree) (hused : Path.Coexist used) (hp : p ∈ used)
    (text : Text) : ∃ made, tree.ensureDirectories p.directories = (.ok (), made) ∧
      made.destination p = .ok p.parts ∧
        Mirrors used (store.insert p text) (made.set p.parts (.file (.text text))) := by
  obtain ⟨made, hmade, hadds, hplace⟩ := FileTree.exists_destination (hused.plain p hp)
    (hused.short p hp) (h.isFree hused hp) (h.not_directory hused hp)
  exact ⟨made, hmade, hplace, (h.addsDirectories hused hp hadds).set hused hp hplace text⟩

theorem replaceText (h : Mirrors used store tree) (hused : Path.Coexist used) (hp : p ∈ used)
    (text : Text) : ∃ after, tree.replaceText p text = (.ok (), after) ∧
      Mirrors used (store.insert p text) after := by
  obtain ⟨made, hmade, hplace, hafter⟩ := h.exists_set hused hp text
  exact ⟨_, FileTree.replaceText_eq hmade hplace text, hafter⟩

theorem insert (h : Mirrors used store tree) (hused : Path.Coexist used) (hp : p ∈ used)
    (text : Text) : Mirrors used (store.insert p text) (tree.insert p (.file (.text text))) := by
  obtain ⟨made, hmade, hplace, hafter⟩ := h.exists_set hused hp text
  simpa only [FileTree.insert, hmade, hplace] using hafter

/-- A name that is in no used path is fresh. -/
theorem fresh (h : Mirrors used store tree) {name : Text}
    (hshort : name.byteCount ≤ FileTree.nameLimit) (hname : ∀ q ∈ used, name ∉ q.parts)
    (hp : p ∈ used) : tree.Fresh p name := by
  refine ⟨hshort, hname p hp, fun here => ?_⟩
  have hmem : name ∈ here ++ [name] := List.mem_append_right here List.mem_cons_self
  cases hfound : tree.get? (here ++ [name]) with
  | none => rfl
  | some entry =>
    cases entry with
    | directory =>
      obtain ⟨q, hq, hfront⟩ := h.directories _ (by simp) hfound
      exact absurd (List.mem_of_mem_dropLast (hfront.subset hmem)) (hname q hq)
    | file content =>
      obtain ⟨q, hq, hplace⟩ := h.exists_of_file? (FileTree.file?_eq_some.2 hfound)
      exact absurd (hplace ▸ hmem) (hname q hq)

end Mirrors

/-! ## The stores of some files -/

theorem mirrors_empty (used : List Path) : Mirrors used .empty .empty where
  files place := by cases place <;> rfl
  keys key text h := by cases h
  directories place hne h := by
    cases place with
    | nil => exact absurd rfl hne
    | cons name rest => cases h
  closed here name entry h := by
    cases here <;> cases h

theorem Mirrors.insertAll {used : List Path} {store : MemoryStore} {tree : FileTree}
    (h : Mirrors used store tree) (hused : Path.Coexist used) {files : List (Path × Text)}
    (hfiles : ∀ file ∈ files, file.1 ∈ used) :
    Mirrors used (files.foldl (fun store file => store.insert file.1 file.2) store)
      (files.foldl (fun tree file => tree.insert file.1 (.file (.text file.2))) tree) := by
  induction files generalizing store tree with
  | nil => exact h
  | cons file files ih =>
    exact ih (h.insert hused (hfiles file List.mem_cons_self) file.2)
      fun other hother => hfiles other (List.mem_cons_of_mem file hother)

theorem mirrors_ofFiles {used : List Path} (hused : Path.Coexist used) {files : List (Path × Text)}
    (hfiles : ∀ file ∈ files, file.1 ∈ used) :
    Mirrors used (MemoryStore.ofFiles files) (FileTree.ofFiles files) := by
  have hall := (mirrors_empty used).insertAll hused hfiles
  rwa [FileTree.ofFiles, FileTree.ofEntries, List.foldl_map]

end MathMarkup
