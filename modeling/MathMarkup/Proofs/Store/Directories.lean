import Mathlib
import MathMarkup.Proofs.Store.Walk

/-!
# Creating the directories above a file

Missing directories are created where nothing stands, at places which the requested paths lead to,
and everything else stays. A path that ends in a directory needs none of them.
-/
namespace MathMarkup.FileTree

variable {tree mid made : FileTree} {here there : Place} {path : Path} {paths : List Path}

/-- Directories were added, each where nothing was and where one of the paths leads. -/
structure AddsDirectories (paths : List Path) (tree made : FileTree) : Prop where
  keep : ∀ p entry, tree.get? p = some entry → made.get? p = some entry
  added : ∀ p entry, made.get? p = some entry → tree.get? p = some entry ∨
    tree.get? p = none ∧ entry = .directory ∧ ∃ path ∈ paths, made.walk [] path.parts = .ok p

namespace AddsDirectories

theorem refl (paths : List Path) (tree : FileTree) : AddsDirectories paths tree tree :=
  ⟨fun _ _ h => h, fun _ _ h => Or.inl h⟩

theorem trans (h : AddsDirectories paths tree mid) (h' : AddsDirectories paths mid made) :
    AddsDirectories paths tree made := by
  refine ⟨fun p entry hp => h'.keep p entry (h.keep p entry hp), fun p entry hp => ?_⟩
  rcases h'.added p entry hp with hmid | ⟨hnone, hentry, hpath⟩
  · rcases h.added p entry hmid with htree | ⟨hnone, hentry, path, hmem, hwalk⟩
    · exact Or.inl htree
    · exact Or.inr ⟨hnone, hentry, path, hmem, walk_mono (fun p => h'.keep p _) hwalk⟩
  · refine Or.inr ⟨?_, hentry, hpath⟩
    cases htree : tree.get? p with
    | none => rfl
    | some old =>
      rw [h.keep p old htree] at hnone
      cases hnone

theorem mono {more : List Path} (hsub : ∀ path ∈ paths, path ∈ more)
    (h : AddsDirectories paths tree made) : AddsDirectories more tree made := by
  refine ⟨h.keep, fun p entry hp => ?_⟩
  rcases h.added p entry hp with htree | ⟨hnone, hentry, path, hmem, hwalk⟩
  · exact Or.inl htree
  · exact Or.inr ⟨hnone, hentry, path, hsub path hmem, hwalk⟩

end AddsDirectories

/-! ## One directory -/

theorem addsDirectories_of_makeDirectory (h : tree.makeDirectory path = .ok made) :
    AddsDirectories [path] tree made ∧ ∃ there, made.walk [] path.parts = .ok there := by
  obtain ⟨here, name, hends, hnone, rfl⟩ := makeDirectory_eq_ok h
  have hne : here ++ [name] ≠ [] := by simp
  have hkeep : ∀ p entry, tree.get? p = some entry →
      (tree.set (here ++ [name]) .directory).get? p = some entry := by
    intro p entry hp
    rw [get?_set tree hne, if_neg, hp]
    rintro rfl
    rw [hnone] at hp
    cases hp
  have hwalk : (tree.set (here ++ [name]) .directory).walk [] path.parts =
      .ok (here ++ [name]) := by
    have hfront := walk_mono (fun p => hkeep p _) hends.walk
    rw [hends.parts_eq, walk_append, hfront]
    refine (walk_name_eq_ok hends.ofPart?).2 ⟨hends.short, ?_, rfl⟩
    rw [get?_set tree hne, if_pos rfl]
  refine ⟨⟨hkeep, fun p entry hp => ?_⟩, _, hwalk⟩
  rw [get?_set tree hne] at hp
  split at hp
  · next hplace =>
    subst hplace
    exact Or.inr ⟨hnone, (Option.some_inj.1 hp).symm, path, List.mem_singleton_self path, hwalk⟩
  · exact Or.inl hp

theorem addsDirectories_of_ensureDirectory {answer : Except StoreError Unit}
    (h : tree.ensureDirectory path = (answer, made)) :
    AddsDirectories [path] tree made ∧
      (answer = .ok () → ∃ there, made.walk [] path.parts = .ok there) := by
  unfold ensureDirectory at h
  split at h
  · next new hmade =>
    cases h
    obtain ⟨hadds, hwalk⟩ := addsDirectories_of_makeDirectory hmade
    exact ⟨hadds, fun _ => hwalk⟩
  · split at h
    · next hdirectory =>
      cases h
      refine ⟨.refl _ _, fun _ => ?_⟩
      unfold isDirectory at hdirectory
      split at hdirectory
      · next hlookup => exact exists_walk_of_lookup hlookup
      · cases hdirectory
    · cases h
      exact ⟨.refl _ _, fun hok => by cases hok⟩

/-! ## All directories above a path -/

theorem addsDirectories_of_ensureDirectories {answer : Except StoreError Unit}
    (h : tree.ensureDirectories paths = (answer, made)) :
    AddsDirectories paths tree made ∧
      (answer = .ok () → ∀ path ∈ paths.head?, ∃ there, made.walk [] path.parts = .ok there) := by
  induction paths generalizing answer made with
  | nil =>
    cases h
    exact ⟨.refl _ _, by simp⟩
  | cons path above ih =>
    have hhead : ∀ {tree made : FileTree} {answer : Except StoreError Unit},
        tree.ensureDirectory path = (answer, made) → AddsDirectories (path :: above) tree made ∧
          (answer = .ok () → ∀ p ∈ (path :: above).head?,
            ∃ there, made.walk [] p.parts = .ok there) := by
      intro tree made answer hensure
      obtain ⟨hadds, hwalk⟩ := addsDirectories_of_ensureDirectory hensure
      exact ⟨hadds.mono (by simp), fun hok p hp => by simp_all⟩
    unfold ensureDirectories at h
    split at h
    · split at h
      · next e mid habove =>
        cases h
        obtain ⟨hadds, -⟩ := ih habove
        exact ⟨hadds.mono fun p hp => List.mem_cons_of_mem path hp, fun hok => by cases hok⟩
      · next mid habove =>
        obtain ⟨hadds, -⟩ := ih habove
        obtain ⟨hadds', hwalk⟩ := hhead h
        exact ⟨(hadds.mono fun p hp => List.mem_cons_of_mem path hp).trans hadds', hwalk⟩
    · exact hhead h

theorem makeDirectory_of_lookup {entry : Entry} (h : tree.lookup path = .ok entry) :
    tree.makeDirectory path = .error .alreadyExists := by
  unfold lookup at h
  unfold makeDirectory
  split at h
  · cases h
  · split at h
    · cases h
    · split at h
      · split at h <;> cases h
        next hchild => simp only [hchild]
      · rfl

/-- Nothing is created above a path whose directory exists. -/
theorem ensureDirectories_of_lookup {above : List Path} (h : tree.lookup path = .ok .directory) :
    tree.ensureDirectories (path :: above) = (.ok (), tree) := by
  have hmade := makeDirectory_of_lookup h
  have hensure : tree.ensureDirectory path = (.ok (), tree) := by
    simp only [ensureDirectory, hmade, isDirectory, h, if_true]
  simp only [ensureDirectories, hmade, hensure]

/-! ## Paths whose directory exists -/

theorem ancestorsOf_silent {part : Text} {before : List Text} (hne : before ≠ [])
    (h : Path.Component.ofPart? part = none) :
    Path.ancestorsOf (part :: before) = Path.ancestorsOf before := by
  obtain ⟨next, before, rfl⟩ := List.exists_cons_of_ne_nil hne
  simp [Path.ancestorsOf, h]

theorem ancestorsOf_component {part : Text} {before : List Text} (hne : before ≠ [])
    (h : Path.Component.ofPart? part ≠ none) : Path.ancestorsOf (part :: before) =
      ⟨Text.join ['/'] (part :: before).reverse⟩ :: Path.ancestorsOf before := by
  obtain ⟨next, before, rfl⟩ := List.exists_cons_of_ne_nil hne
  simp [Path.ancestorsOf, h]

theorem checkPath_eq_ok {text : Text} :
    checkPath text = .ok () ↔ '\x00' ∉ text ∧ text.byteCount ≤ pathLimit ∧ text ≠ [] := by
  unfold checkPath
  split
  · next hnul => simp [hnul]
  · next hnul =>
    split
    · next hlong => simp [hlong]
    · next hshort =>
      split
      · next hnil => simp [hnil]
      · next hne => simp [hnul, Nat.le_of_not_lt hshort, hne]

theorem checkPath_beginning {text more : Text} (h : checkPath more = .ok ()) (hne : text ≠ [])
    (h' : text <+: more) : checkPath text = .ok () := by
  obtain ⟨hnul, hshort, -⟩ := checkPath_eq_ok.1 h
  obtain ⟨rest, rfl⟩ := h'
  rw [Text.byteCount_append] at hshort
  exact checkPath_eq_ok.2
    ⟨fun hmem => hnul (List.mem_append_left rest hmem), by omega, hne⟩

/-- The nearest directory above some parts is written as a beginning of their path, and leads where
the parts do. -/
theorem exists_ancestorsOf_eq_cons (tree : FileTree) {before : List Text} (hne : before ≠ [])
    (hparts : ∀ part ∈ before, '/' ∉ part) :
    ∃ path above, Path.ancestorsOf before = path :: above ∧ path.text ≠ [] ∧
      (∀ after, after ≠ [] → path.text <+: Text.join ['/'] (before.reverse ++ after)) ∧
      tree.walk [] path.parts = tree.walk [] before.reverse := by
  induction before with
  | nil => exact absurd rfl hne
  | cons part before ih =>
    have hpart := hparts part List.mem_cons_self
    by_cases hbefore : before = []
    · subst hbefore
      -- an empty first part is the root, which is written as a slash of its own
      by_cases hnil : part = []
      · subst hnil
        refine ⟨⟨['/']⟩, [], rfl, by simp, fun after hafter => ?_, rfl⟩
        rw [List.reverse_singleton, Text.join_append (by simp) hafter]
        exact ⟨Text.join ['/'] after, rfl⟩
      · refine ⟨⟨part⟩, [], by rw [Path.ancestorsOf, if_neg hnil], hnil, fun after hafter => ?_, ?_⟩
        · rw [List.reverse_singleton, Text.join_append (by simp) hafter, List.append_assoc]
          exact ⟨_, by rw [Text.join, List.intercalate_singleton]⟩
        · rw [Path.parts, Text.split_of_not_mem hpart, List.reverse_singleton]
    · by_cases hcomponent : Path.Component.ofPart? part = none
      · obtain ⟨path, above, hancestors, htext, hbeginning, hwalk⟩ :=
          ih hbefore fun other hother => hparts other (List.mem_cons_of_mem part hother)
        refine ⟨path, above, by rw [ancestorsOf_silent hbefore hcomponent, hancestors], htext,
          fun after hafter => ?_, ?_⟩
        · rw [List.reverse_cons, List.append_assoc]
          exact hbeginning (part :: after) (by simp)
        · rw [hwalk, List.reverse_cons, walk_append]
          cases tree.walk [] before.reverse with
          | error e => rfl
          | ok there => exact (walk_silent hcomponent).symm
      · have hjoined : (part :: before).reverse ≠ [] := by simp
        refine ⟨⟨Text.join ['/'] (part :: before).reverse⟩, _,
          ancestorsOf_component hbefore hcomponent, ?_, fun after hafter => ?_, ?_⟩
        · rw [List.reverse_cons, Text.join_append (by simpa using hbefore) (by simp)]
          simp
        · rw [Text.join_append hjoined hafter, List.append_assoc]
          exact List.prefix_append _ _
        · rw [Path.parts, Text.split_join hjoined]
          exact fun other hother => hparts other (List.mem_reverse.1 hother)

theorem lookup_current : tree.lookup (Path.ofString ".") = .ok .directory := by
  have hwalk : tree.walk [] (Path.ofString ".").parts = .ok [] := by
    have hparts : (Path.ofString ".").parts = [['.']] := by decide
    rw [hparts]
    exact walk_silent (by decide)
  exact lookup_of_walk (by decide) hwalk

/-- No directory is created for a path that ends in one. -/
theorem EndsAt.ensureDirectories {name : Text} (h : tree.EndsAt path here name) :
    tree.ensureDirectories path.directories = (.ok (), tree) := by
  have htext : path.text ≠ [] := (checkPath_eq_ok.1 h.check).2.2
  have hcomponent : Path.Component.ofPart? name ≠ none := by
    rw [h.ofPart?]
    simp
  have hreverse : path.parts.reverse = name :: path.parts.dropLast.reverse := by
    conv_lhs => rw [h.parts_eq]
    exact List.reverse_concat
  have hancestors : path.ancestors = Path.ancestorsOf (name :: path.parts.dropLast.reverse) := by
    rw [Path.ancestors, if_neg htext, hreverse]
  by_cases hnil : path.parts.dropLast = []
  · have hdirectories : path.directories = [Path.ofString "."] := by
      rw [Path.directories, hancestors, hnil, List.reverse_nil, Path.ancestorsOf, if_neg h.ne_nil]
      rfl
    rw [hdirectories]
    exact ensureDirectories_of_lookup lookup_current
  · have hbefore : path.parts.dropLast.reverse ≠ [] := by simpa using hnil
    have hparts : ∀ part ∈ path.parts.dropLast.reverse, '/' ∉ part := fun part hpart =>
      Text.not_mem_of_mem_split (List.mem_of_mem_dropLast (List.mem_reverse.1 hpart))
    obtain ⟨parent, above, hparent, hne, hbeginning, hwalk⟩ :=
      exists_ancestorsOf_eq_cons tree hbefore hparts
    have hdirectories : path.directories = parent :: above := by
      rw [Path.directories, hancestors, ancestorsOf_component hbefore hcomponent, hparent]
      rfl
    have hparentText : parent.text <+: path.text := by
      have hjoin := hbeginning [name] (by simp)
      rwa [List.reverse_reverse, ← h.parts_eq, Path.parts, Text.join_split] at hjoin
    rw [List.reverse_reverse, h.walk] at hwalk
    rw [hdirectories]
    exact ensureDirectories_of_lookup
      (lookup_of_walk (checkPath_beginning h.check hne hparentText) hwalk)

end MathMarkup.FileTree
