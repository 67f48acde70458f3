import Mathlib
import MathMarkup.Proofs.Path
import MathMarkup.Proofs.Store.Replace

/-!
# Plain paths in file trees

A plain path leads to the place that its parts are. Only a file on the way, or a directory at the
end, can keep a text from being written there.
-/
namespace MathMarkup

/-- Neither a name nor the whole path is too long. -/
def Path.IsShort (p : Path) : Prop :=
  p.text.byteCount ≤ FileTree.pathLimit ∧ ∀ part ∈ p.parts, part.byteCount ≤ FileTree.nameLimit

instance (p : Path) : Decidable p.IsShort := inferInstanceAs (Decidable (_ ∧ _))

namespace FileTree

variable {tree made : FileTree} {here there place : Place} {p : Path} {names : List Text}

/-- All that a tree holds stands in directories of the tree. -/
def IsClosed (tree : FileTree) : Prop :=
  ∀ (here : Place) name entry, tree.get? (here ++ [name]) = some entry →
    tree.get? here = some .directory

theorem IsClosed.directory (h : tree.IsClosed) {rest : Place} (hrest : rest ≠ []) {entry : Entry}
    (hentry : tree.get? (here ++ rest) = some entry) : tree.get? here = some .directory := by
  induction rest using List.reverseRecOn generalizing entry with
  | nil => exact absurd rfl hrest
  | append_singleton rest name ih =>
    rw [← List.append_assoc] at hentry
    have hparent := h _ _ _ hentry
    by_cases hnil : rest = []
    · rwa [hnil, List.append_nil] at hparent
    · exact ih hnil hparent

/-- No file stands on the way along some names. -/
def IsFree (tree : FileTree) (names : List Text) : Prop :=
  ∀ front, front <+: names → tree.file? front = none

/-! ## Walks along names -/

/-- Names lead to themselves, and through directories only. -/
theorem eq_of_walk_names (hnames : ∀ name ∈ names, Path.IsName name)
    (h : tree.walk here names = .ok there) : there = here ++ names ∧
      ∀ front, front ≠ [] → front <+: names → tree.get? (here ++ front) = some .directory := by
  induction names generalizing here with
  | nil =>
    refine ⟨?_, fun front hne hfront => absurd (List.prefix_nil.1 hfront) hne⟩
    cases h
    exact (List.append_nil _).symm
  | cons name names ih =>
    have hname := (hnames name List.mem_cons_self).ofPart?
    rw [walk_cons] at h
    cases hstep : tree.walk here [name] with
    | error e =>
      rw [hstep] at h
      cases h
    | ok next =>
      rw [hstep] at h
      obtain ⟨-, hdirectory, rfl⟩ := (walk_name_eq_ok hname).1 hstep
      obtain ⟨rfl, hfronts⟩ :=
        ih (fun other hother => hnames other (List.mem_cons_of_mem name hother)) h
      refine ⟨by simp, fun front hne hfront => ?_⟩
      rcases List.prefix_cons_iff.1 hfront with rfl | ⟨rest, rfl, hrest⟩
      · exact absurd rfl hne
      · by_cases hnil : rest = []
        · rwa [hnil]
        · simpa using hfronts rest hnil hrest

/-- Where no file stands on the way, a walk can fail only for what is missing. -/
theorem walk_names_cases (hnames : ∀ name ∈ names, Path.IsName name)
    (hshort : ∀ name ∈ names, name.byteCount ≤ nameLimit)
    (hfree : ∀ front, front <+: names → tree.file? (here ++ front) = none) :
    tree.walk here names = .ok (here ++ names) ∨ tree.walk here names = .error .notFound ∧
      ∃ front, front <+: names ∧ tree.get? (here ++ front) = none := by
  induction names generalizing here with
  | nil => exact Or.inl (by rw [List.append_nil]; rfl)
  | cons name names ih =>
    have hname := (hnames name List.mem_cons_self).ofPart?
    have hfirst : [name] <+: name :: names := List.prefix_append [name] names
    have hchild : tree.child here name = .ok (tree.get? (here ++ [name])) :=
      child_eq_ok.2 ⟨hshort name List.mem_cons_self, rfl⟩
    simp only [walk, hname, hchild]
    cases hfound : tree.get? (here ++ [name]) with
    | none => exact Or.inr ⟨rfl, [name], hfirst, hfound⟩
    | some entry =>
      cases entry with
      | file content =>
        have hfile := hfree [name] hfirst
        rw [file?_eq_some.2 hfound] at hfile
        cases hfile
      | directory =>
        have hrest : ∀ front, front <+: names → tree.file? (here ++ [name] ++ front) = none := by
          intro front hfront
          rw [List.append_assoc]
          exact hfree _ ((List.prefix_append_right_inj [name]).2 hfront)
        rcases ih (fun other hother => hnames other (List.mem_cons_of_mem _ hother))
          (fun other hother => hshort other (List.mem_cons_of_mem _ hother)) hrest with
          hwalk | ⟨hwalk, front, hfront, hnone⟩
        · exact Or.inl (by simpa using hwalk)
        · refine Or.inr ⟨hwalk, name :: front, ?_, by simpa using hnone⟩
          exact (List.prefix_append_right_inj [name]).2 hfront

/-! ## Where a plain path leads -/

theorem checkPath_of_isPlain (hp : p.IsPlain) (hshort : p.IsShort) :
    checkPath p.text = .ok () :=
  checkPath_eq_ok.2 ⟨hp.nul_not_mem, hshort.1, hp.text_ne_nil⟩

theorem isName_of_mem_dropLast (hp : p.IsPlain) : ∀ name ∈ p.parts.dropLast, Path.IsName name :=
  fun name hname => hp name (List.mem_of_mem_dropLast hname)

theorem walk_plain_cases (hp : p.IsPlain) (hshort : p.IsShort)
    (hfree : tree.IsFree p.parts.dropLast) :
    tree.walk [] p.parts.dropLast = .ok p.parts.dropLast ∨
      tree.walk [] p.parts.dropLast = .error .notFound ∧
        ∃ front, front <+: p.parts.dropLast ∧ tree.get? front = none :=
  walk_names_cases (isName_of_mem_dropLast hp)
    (fun name hname => hshort.2 name (List.mem_of_mem_dropLast hname)) hfree

theorem endsAt_of_isPlain (hp : p.IsPlain) (hshort : p.IsShort)
    (hwalk : tree.walk [] p.parts.dropLast = .ok here) :
    ∃ name, here ++ [name] = p.parts ∧ tree.EndsAt p here name := by
  obtain ⟨name, hname⟩ := p.exists_parts_eq
  have hmem : name ∈ p.parts := by rw [hname]; simp
  obtain ⟨rfl, -⟩ := eq_of_walk_names (isName_of_mem_dropLast hp) hwalk
  refine ⟨name, hname.symm, checkPath_of_isPlain hp hshort, hwalk, ?_, hshort.2 name hmem⟩
  rw [hname, List.getLast?_concat, Option.bind_some, (hp name hmem).ofPart?]

/-- A plain path leads to what stands at its place. -/
theorem lookup_of_isPlain (hp : p.IsPlain) (hshort : p.IsShort) (hclosed : tree.IsClosed)
    (hfree : tree.IsFree p.parts.dropLast) :
    tree.lookup p = (tree.get? p.parts).elim (.error .notFound) .ok := by
  rcases walk_plain_cases hp hshort hfree with hwalk | ⟨hwalk, front, hfront, hmissing⟩
  · obtain ⟨name, hparts, hends⟩ := endsAt_of_isPlain hp hshort hwalk
    rw [hends.lookup, hparts]
  · have hnone : tree.get? p.parts = none := by
      cases hget : tree.get? p.parts with
      | none => rfl
      | some entry =>
        obtain ⟨name, hname⟩ := p.exists_parts_eq
        obtain ⟨rest, hrest⟩ := hfront
        rw [hname, ← hrest, List.append_assoc] at hget
        rw [hclosed.directory (by simp) hget] at hmissing
        cases hmissing
    simp only [lookup, checkPath_of_isPlain hp hshort, hwalk, hnone]
    rfl

/-! ## The directories above a plain path -/

/-- Directories are added on the way to the path only. -/
theorem AddsDirectories.added_of_isPlain (hp : p.IsPlain)
    (h : AddsDirectories p.directories tree made) {entry : Entry}
    (hplace : made.get? place = some entry) : tree.get? place = some entry ∨
      entry = .directory ∧ place <+: p.parts.dropLast ∧
        ∀ front, front ≠ [] → front <+: place → made.get? front = some .directory := by
  rcases h.added place entry hplace with htree | ⟨hnone, hentry, directory, hdirectory, hwalk⟩
  · exact Or.inl htree
  · rw [hp.directories_eq] at hdirectory
    split_ifs at hdirectory with hnil
    · -- the working directory is there already
      cases List.mem_singleton.1 hdirectory
      have hparts : (Path.ofString ".").parts = [['.']] := by decide
      rw [hparts, walk_silent (by decide)] at hwalk
      cases hwalk
      cases hnone
    · have hparts := (hp.front hnil).parts_isPrefix_of_mem_ancestors hdirectory
      rw [Path.parts_front hnil] at hparts
      obtain ⟨rfl, hfronts⟩ := eq_of_walk_names
        (fun name hname => isName_of_mem_dropLast hp name (hparts.subset hname)) hwalk
      exact Or.inr ⟨hentry, hparts, hfronts⟩

theorem AddsDirectories.isClosed (hp : p.IsPlain) (h : AddsDirectories p.directories tree made)
    (hclosed : tree.IsClosed) : made.IsClosed := by
  intro here name entry hentry
  rcases h.added_of_isPlain hp hentry with htree | ⟨-, -, hfronts⟩
  · exact h.keep _ _ (hclosed _ _ _ htree)
  · by_cases hnil : here = []
    · rw [hnil]
      rfl
    · exact hfronts here hnil (List.prefix_append here [name])

/-! ## Creating them -/

theorem EndsAt.makeDirectory {path : Path} {name : Text} (h : tree.EndsAt path here name) :
    tree.makeDirectory path = (tree.get? (here ++ [name])).elim
      (.ok (tree.set (here ++ [name]) .directory)) fun _ => .error .alreadyExists := by
  unfold FileTree.makeDirectory
  simp only [h.check, h.walk, h.last, child_eq_ok.2 ⟨h.short, rfl⟩]
  cases tree.get? (here ++ [name]) <;> rfl

theorem EndsAt.ensureDirectory {path : Path} {name : Text} (h : tree.EndsAt path here name)
    (hfree : tree.file? (here ++ [name]) = none) : (tree.ensureDirectory path).1 = .ok () := by
  simp only [FileTree.ensureDirectory, h.makeDirectory, isDirectory, h.lookup]
  cases hfound : tree.get? (here ++ [name]) with
  | none => rfl
  | some entry =>
    cases entry with
    | directory => rfl
    | file content =>
      rw [file?_eq_some.2 hfound] at hfree
      cases hfree

theorem EndsAt.ensureDirectories_cons {path : Path} {name : Text} (h : tree.EndsAt path here name)
    (hfree : tree.file? (here ++ [name]) = none) (above : List Path) :
    (tree.ensureDirectories (path :: above)).1 = .ok () := by
  rw [← h.ensureDirectory hfree]
  simp only [FileTree.ensureDirectories, h.makeDirectory]
  cases tree.get? (here ++ [name]) <;> rfl

/-- A walk to the directory of a plain path can fail only for what is missing. -/
theorem exists_endsAt_or_missing (hp : p.IsPlain) (hshort : p.IsShort)
    (hfree : tree.IsFree p.parts.dropLast) :
    (∃ name, tree.EndsAt p p.parts.dropLast name ∧ p.parts.dropLast ++ [name] = p.parts) ∨
      p.parts.dropLast ≠ [] ∧ tree.makeDirectory p = .error .notFound := by
  rcases walk_plain_cases hp hshort hfree with hwalk | ⟨hwalk, -⟩
  · obtain ⟨name, hparts, hends⟩ := endsAt_of_isPlain hp hshort hwalk
    exact Or.inl ⟨name, hends, hparts⟩
  · refine Or.inr ⟨fun hnil => ?_, ?_⟩
    · rw [hnil] at hwalk
      cases hwalk
    · simp only [makeDirectory, checkPath_of_isPlain hp hshort, hwalk]

theorem isShort_front (hshort : p.IsShort) (hne : p.parts.dropLast ≠ []) : p.front.IsShort := by
  obtain ⟨name, hname⟩ := p.exists_parts_eq
  have hcount := hshort.1
  rw [Path.text_eq_front hne hname, Text.byteCount_append] at hcount
  refine ⟨by omega, fun part hpart => ?_⟩
  rw [Path.parts_front hne] at hpart
  exact hshort.2 part (List.mem_of_mem_dropLast hpart)

theorem IsFree.dropLast (h : tree.IsFree names) : tree.IsFree names.dropLast :=
  fun front hfront => h front (hfront.trans (List.dropLast_prefix names))

/-- A plain path leads to its place once it and the directories above it are created. -/
theorem exists_walk_of_ensureDirectories (hp : p.IsPlain)
    (hok : (tree.ensureDirectories p.ancestors).1 = .ok ()) : ∃ made,
      tree.ensureDirectories p.ancestors = (.ok (), made) ∧
        made.walk [] p.parts = .ok p.parts := by
  rcases hmade : tree.ensureDirectories p.ancestors with ⟨answer, made⟩
  rw [hmade] at hok
  cases hok
  obtain ⟨there, hwalk⟩ := (addsDirectories_of_ensureDirectories hmade).2 rfl p
    (by rw [hp.ancestors_eq]; rfl)
  obtain ⟨rfl, -⟩ := eq_of_walk_names hp hwalk
  exact ⟨made, rfl, hwalk⟩

/-- A plain directory and those above it can be created where no file stands on the way. -/
theorem ensureDirectories_ancestors (hp : p.IsPlain) : p.IsShort → tree.IsFree p.parts →
    (tree.ensureDirectories p.ancestors).1 = .ok () := by
  refine hp.induction (motive := fun p => p.IsShort → tree.IsFree p.parts →
    (tree.ensureDirectories p.ancestors).1 = .ok ())
    (fun p hp hnil hshort hfree => ?_) fun p hp hne ih hshort hfree => ?_
  · rw [hp.ancestors_eq]
    rcases exists_endsAt_or_missing hp hshort hfree.dropLast with ⟨name, hends, hparts⟩ | ⟨hne, -⟩
    · exact hends.ensureDirectories_cons (by rw [hparts]; exact hfree _ List.prefix_rfl) _
    · exact absurd hnil hne
  · rw [hp.ancestors_eq, if_neg hne]
    rcases exists_endsAt_or_missing hp hshort hfree.dropLast with
      ⟨name, hends, hparts⟩ | ⟨-, hmissing⟩
    · exact hends.ensureDirectories_cons (by rw [hparts]; exact hfree _ List.prefix_rfl) _
    · -- the directories above come first, and after them the path ends in one of them
      have hparts := Path.parts_front hne
      obtain ⟨made, hmade, hwalk⟩ := exists_walk_of_ensureDirectories (hp.front hne)
        (ih (isShort_front hshort hne) (by rw [hparts]; exact hfree.dropLast))
      rw [hparts] at hwalk
      obtain ⟨name, hname, hends⟩ := endsAt_of_isPlain hp hshort hwalk
      simp only [ensureDirectories, hmissing, hmade]
      refine hends.ensureDirectory ?_
      rw [(addsDirectories_of_ensureDirectories hmade).1.file?_eq, hname]
      exact hfree _ List.prefix_rfl

/-- The directories of a plain path can be created where no file stands on the way. -/
theorem exists_ensureDirectories (hp : p.IsPlain) (hshort : p.IsShort)
    (hfree : tree.IsFree p.parts.dropLast) : ∃ made,
      tree.ensureDirectories p.directories = (.ok (), made) ∧
        made.walk [] p.parts.dropLast = .ok p.parts.dropLast := by
  rw [hp.directories_eq]
  split_ifs with hnil
  · exact ⟨tree, ensureDirectories_of_lookup lookup_current, by rw [hnil]; rfl⟩
  · have hparts := Path.parts_front hnil
    rw [← hparts] at hfree ⊢
    exact exists_walk_of_ensureDirectories (hp.front hnil)
      (ensureDirectories_ancestors (hp.front hnil) (isShort_front hshort hnil) hfree)

/-! ## Writing to a plain path -/

theorem not_isPrefix_dropLast (p : Path) : ¬ p.parts <+: p.parts.dropLast := by
  intro h
  have hlength := h.length_le
  rw [List.length_dropLast] at hlength
  have hpos := List.length_pos_iff.2 p.parts_ne_nil
  omega

/-- A text can be written where no file stands on the way and no directory at the end. -/
theorem exists_destination (hp : p.IsPlain) (hshort : p.IsShort)
    (hfree : tree.IsFree p.parts.dropLast) (hplace : tree.get? p.parts ≠ some .directory) :
    ∃ made, tree.ensureDirectories p.directories = (.ok (), made) ∧
      AddsDirectories p.directories tree made ∧ made.destination p = .ok p.parts := by
  obtain ⟨made, hmade, hwalk⟩ := exists_ensureDirectories hp hshort hfree
  have hadds := (addsDirectories_of_ensureDirectories hmade).1
  obtain ⟨name, hparts, hends⟩ := endsAt_of_isPlain hp hshort hwalk
  refine ⟨made, hmade, hadds, destination_eq_ok.2 ⟨_, name, hends, hparts, fun hdirectory => ?_⟩⟩
  rcases hadds.added_of_isPlain hp hdirectory with htree | ⟨-, hprefix, -⟩
  · exact hplace htree
  · exact not_isPrefix_dropLast p hprefix

theorem replaceText_eq (hmade : tree.ensureDirectories p.directories = (.ok (), made))
    (hplace : made.destination p = .ok place) (text : Text) :
    tree.replaceText p text = (.ok (), made.set place (.file (.text text))) := by
  simp only [replaceText, hmade, lookup_of_destination hplace, hplace]
  cases made.get? place <;> rfl

theorem IsClosed.set_destination (hclosed : made.IsClosed) (hp : p.IsPlain)
    (hplace : made.destination p = .ok place) (content : Content) :
    (made.set place (.file content)).IsClosed := by
  intro here name entry hentry
  refine (directory_set_destination hplace content here).2 ?_
  rw [get?_set made (destination_ne_nil hplace)] at hentry
  split at hentry
  · next heq =>
    obtain ⟨front, last, hends, hlast, -⟩ := destination_eq_ok.1 hplace
    obtain ⟨rfl, -⟩ := List.append_inj' (hlast.trans heq) rfl
    obtain ⟨hfront, hfronts⟩ := eq_of_walk_names (isName_of_mem_dropLast hp) hends.walk
    rw [List.nil_append] at hfront
    by_cases hnil : front = []
    · rw [hnil]
      rfl
    · exact hfronts front hnil (by rw [hfront])
  · exact hclosed _ _ _ hentry

end FileTree

end MathMarkup
