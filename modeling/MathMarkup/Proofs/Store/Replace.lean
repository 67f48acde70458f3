import Mathlib
import MathMarkup.Proofs.Store.Directories
import MathMarkup.Store.Temporary

/-!
# Replacing one file

A replacement adds directories, and then either sets one file or does nothing more. That it goes by
way of a temporary file shows in nothing but what may go wrong.
-/
namespace MathMarkup

section Tables

variable {κ α : Type} [DecidableEq κ]

theorem assign_assign (key : κ) (old new : α) (table : List (κ × α)) :
    assign key new (assign key old table) = assign key new table := by
  induction table with
  | nil => simp [assign]
  | cons entry rest ih =>
    obtain ⟨k, v⟩ := entry
    by_cases hk : k = key
    · simp [assign, hk]
    · simp [assign, hk, ih]

theorem filter_assign {key : κ} {table : List (κ × α)} (h : valueAt key table = none) (value : α) :
    (assign key value table).filter (fun entry => entry.1 ≠ key) = table := by
  induction table with
  | nil => simp [assign]
  | cons entry rest ih =>
    obtain ⟨k, v⟩ := entry
    rw [valueAt] at h
    split at h
    · cases h
    · next hk =>
      rw [assign, if_neg hk, List.filter_cons_of_pos (by simpa using hk), ih h]

end Tables

namespace FileTree

variable {tree made after : FileTree} {path : Path} {place : Place} {text : Text}

/-- What the file at a place holds. -/
def file? (tree : FileTree) (place : Place) : Option Content :=
  match tree.get? place with
  | some (.file content) => some content
  | _ => none

theorem file?_eq_some {content : Content} :
    tree.file? place = some content ↔ tree.get? place = some (.file content) := by
  unfold file?
  split
  · next other hother => simp [hother]
  · next hnone => simpa using hnone content

theorem AddsDirectories.file?_eq {paths : List Path} (h : AddsDirectories paths tree made) :
    made.file? = tree.file? := by
  funext p
  ext content
  rw [file?_eq_some, file?_eq_some]
  constructor
  · intro hmade
    rcases h.added p _ hmade with htree | ⟨-, hdirectory, -⟩
    · exact htree
    · cases hdirectory
  · exact h.keep p _

theorem file?_set_file (hne : place ≠ []) (content : Content) :
    (tree.set place (.file content)).file? = Function.update tree.file? place (some content) := by
  funext p
  by_cases hp : p = place
  · subst hp
    rw [Function.update_self, file?_eq_some, get?_set tree hne, if_pos rfl]
  · rw [Function.update_of_ne hp]
    unfold file?
    rw [get?_set tree hne, if_neg (Ne.symm hp)]

/-- A file that takes a place at which no directory stands leaves all directories. -/
theorem directory_set_file (hne : place ≠ []) (hplace : tree.get? place ≠ some .directory)
    (content : Content) (p : Place) : (tree.set place (.file content)).get? p = some .directory ↔
      tree.get? p = some .directory := by
  rw [get?_set tree hne]
  split
  · next hp =>
    subst hp
    simp [hplace]
  · rfl

/-! ## The file at the end of a path -/

theorem destination_ne_nil (h : tree.destination path = .ok place) : place ≠ [] := by
  obtain ⟨here, name, -, rfl, -⟩ := destination_eq_ok.1 h
  simp

theorem directory_set_destination (h : tree.destination path = .ok place) (content : Content)
    (p : Place) : (tree.set place (.file content)).get? p = some .directory ↔
      tree.get? p = some .directory := by
  obtain ⟨_, _, -, -, hfree⟩ := destination_eq_ok.1 h
  exact directory_set_file (destination_ne_nil h) hfree content p

theorem lookup_of_destination (h : tree.destination path = .ok place) :
    tree.lookup path = (tree.get? place).elim (.error .notFound) .ok := by
  obtain ⟨here, name, hends, rfl, -⟩ := destination_eq_ok.1 h
  exact hends.lookup

theorem destination_set_file (h : tree.destination path = .ok place) (content : Content) :
    (tree.set place (.file content)).destination path = .ok place :=
  (destination_congr (directory_set_destination h content)).2 h

theorem readText_of_file? (hplace : tree.destination path = .ok place)
    (htext : tree.file? place = some (.text text)) : tree.readText path = .ok text := by
  rw [readText, lookup_of_destination hplace, file?_eq_some.1 htext]
  rfl

theorem readText_set_file (h : tree.destination path = .ok place) (text : Text) :
    (tree.set place (.file (.text text))).readText path = .ok text := by
  refine readText_of_file? (destination_set_file h (.text text)) ?_
  rw [file?_set_file (destination_ne_nil h), Function.update_self]

/-- A file is replaced where it is, and no directory is created for it. -/
theorem replaceText_of_file? {content : Content} (hplace : tree.destination path = .ok place)
    (hfile : tree.file? place = some content) (new : Text) :
    tree.replaceText path new = (.ok (), tree.set place (.file (.text new))) := by
  obtain ⟨here, name, hends, -, -⟩ := destination_eq_ok.1 hplace
  have hlookup := lookup_of_destination hplace
  rw [file?_eq_some.1 hfile] at hlookup
  simp only [replaceText, hends.ensureDirectories, hlookup, hplace, Option.elim]

/-- A file is read from the place that it is written to. -/
theorem AddsDirectories.file?_of_lookup {paths : List Path} {content : Content}
    (hadds : AddsDirectories paths tree made) (hplace : made.destination path = .ok place)
    (h : tree.lookup path = .ok (.file content)) : tree.file? place = some content := by
  obtain ⟨here, name, hends, hfile⟩ := exists_endsAt_of_lookup h
  obtain ⟨here', name', hends', rfl, -⟩ := destination_eq_ok.1 hplace
  obtain ⟨rfl, rfl⟩ := (hends.mono fun p => hadds.keep p _).unique hends'
  exact file?_eq_some.2 hfile

/-! ## What a replacement leaves -/

/-- The answers to a replacement, each with the tree that it leaves. -/
inductive Replaced (path : Path) (text : Text) (tree : FileTree) :
    Except StoreError Unit → FileTree → Prop
  | refused {made : FileTree} (e : StoreError)
      (hadds : AddsDirectories path.directories tree made) :
      Replaced path text tree (.error e) made
  | written {made : FileTree} {place : Place} (hadds : AddsDirectories path.directories tree made)
      (hplace : made.destination path = .ok place) :
      Replaced path text tree (.ok ()) (made.set place (.file (.text text)))

theorem replaced_of_replaceText {answer : Except StoreError Unit}
    (h : tree.replaceText path text = (answer, after)) : Replaced path text tree answer after := by
  unfold replaceText at h
  split at h
  · next e made hmade =>
    cases h
    exact .refused e (addsDirectories_of_ensureDirectories hmade).1
  · next made hmade =>
    have hadds := (addsDirectories_of_ensureDirectories hmade).1
    split at h
    case h_3 =>
      cases h
      exact .refused _ hadds
    all_goals
      split at h <;> cases h
      · exact .refused _ hadds
      · next hplace => exact .written hadds hplace

/-! ## Temporary files -/

theorem openTemporary_eq_ok {temporary : Temporary} {directory : Path} {source : Place}
    (h : tree.openTemporary temporary directory = .ok source) :
    source ≠ [] ∧ tree.get? source = none := by
  unfold openTemporary at h
  split at h
  · cases h
  · split at h
    · cases h
    · split at h
      · cases h
      · split at h <;> cases h
        next hchild => exact ⟨by simp, (child_eq_ok.1 hchild).2⟩

theorem landing_eq_ok {temporary : Temporary} (h : tree.landing temporary path = .ok place) :
    tree.destination path = .ok place := by
  unfold landing at h
  split at h
  case h_3 => cases h
  all_goals
    split at h
    · cases h
    · split at h
      · cases h
      · exact h

/-- Removing a new file gives the tree without it back. -/
theorem erase_set (hne : place ≠ []) (hnone : tree.get? place = none) (entry : Entry) :
    (tree.set place entry).erase place = tree := by
  have hvalue : valueAt place tree.entries = none := by
    cases place with
    | nil => exact absurd rfl hne
    | cons first rest => exact hnone
  rw [set, erase, filter_assign hvalue]

theorem set_set (tree : FileTree) (place : Place) (old new : Entry) :
    (tree.set place old).set place new = tree.set place new := by
  rw [set, set, set, assign_assign]

/-- A complete temporary file does not change where a path ends. -/
theorem destination_of_temporary {source : Place} (hne : source ≠ [])
    (hnone : tree.get? source = none) {content : Content}
    (h : (tree.set source (.file content)).destination path = .ok place) :
    tree.destination path = .ok place := by
  have hfree : tree.get? source ≠ some .directory := by simp [hnone]
  exact (destination_congr (directory_set_file hne hfree content)).1 h

theorem replaced_of_replaceThrough {temporary : Temporary} {answer : Except StoreError Unit}
    (h : tree.replaceThrough temporary path text = (answer, after)) :
    Replaced path text tree answer after := by
  unfold replaceThrough at h
  split at h
  · next e made hmade =>
    cases h
    exact .refused e (addsDirectories_of_ensureDirectories hmade).1
  · next made hmade =>
    have hadds := (addsDirectories_of_ensureDirectories hmade).1
    split at h
    · cases h
      exact .refused _ hadds
    · next source hopen =>
      obtain ⟨hne, hnone⟩ := openTemporary_eq_ok hopen
      -- whatever was written to the temporary file, removing it gives the tree before it back
      simp only [set_set, erase_set hne hnone] at h
      split at h
      · cases h
        exact .refused _ hadds
      · split at h <;> cases h
        · exact .refused _ hadds
        · next hlanding =>
          exact .written hadds (destination_of_temporary hne hnone (landing_eq_ok hlanding))

end FileTree

end MathMarkup
