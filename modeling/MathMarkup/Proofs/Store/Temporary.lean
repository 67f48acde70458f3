import Mathlib
import MathMarkup.Proofs.Store.Replace

/-!
# Fresh temporary files

A temporary file whose name is used nowhere is met by no walk, so that a replacement by way of it
comes to the same as one that sets the file at once.
-/
namespace MathMarkup.FileTree

variable {tree made : FileTree} {path : Path} {here there : Place} {name : Text}

/-! ## The names on a walk -/

/-- A walk goes down to the names of its parts only. -/
theorem mem_parts_of_walk {parts : List Text} (h : tree.walk here parts = .ok there)
    (hname : name ∈ there) :
    name ∈ here ∨ name ∈ parts ∧ Path.Component.ofPart? name = some (.name name) := by
  induction parts generalizing here with
  | nil =>
    cases h
    exact Or.inl hname
  | cons part parts ih =>
    rw [walk_cons] at h
    cases hstep : tree.walk here [part] with
    | error e =>
      rw [hstep] at h
      cases h
    | ok next =>
      rw [hstep] at h
      rcases ih h with hnext | ⟨hmem, hcomponent⟩
      · rcases Path.Component.ofPart?_cases part with hpart | hpart | hpart
        · cases (walk_silent hpart).symm.trans hstep
          exact Or.inl hnext
        · cases (walk_parent hpart).symm.trans hstep
          exact Or.inl (List.mem_of_mem_dropLast hnext)
        · obtain ⟨-, -, rfl⟩ := (walk_name_eq_ok hpart).1 hstep
          rcases List.mem_append.1 hnext with hhere | hlast
          · exact Or.inl hhere
          · cases List.mem_singleton.1 hlast
            exact Or.inr ⟨List.mem_cons_self, hpart⟩
      · exact Or.inr ⟨List.mem_cons_of_mem part hmem, hcomponent⟩

theorem mem_of_mem_ancestorsOf {before : List Text} (hparts : ∀ part ∈ before, '/' ∉ part)
    (hpath : path ∈ Path.ancestorsOf before) (hname : name ∈ path.parts) :
    name ∈ before ∨ name = [] := by
  induction before with
  | nil => simp [Path.ancestorsOf] at hpath
  | cons part before ih =>
    have hpart := hparts part List.mem_cons_self
    by_cases hbefore : before = []
    · subst hbefore
      unfold Path.ancestorsOf at hpath
      split at hpath <;> cases List.mem_singleton.1 hpath
      · have hslash : Path.parts ⟨['/']⟩ = [[], []] := by decide
        rw [hslash] at hname
        exact Or.inr (by simpa using hname)
      · rw [Path.parts, Text.split_of_not_mem hpart] at hname
        exact Or.inl hname
    · have hrest : path ∈ Path.ancestorsOf before → name ∈ part :: before ∨ name = [] := by
        intro hpath
        rcases ih (fun other hother => hparts other (List.mem_cons_of_mem part hother)) hpath with
          hmem | hnil
        · exact Or.inl (List.mem_cons_of_mem part hmem)
        · exact Or.inr hnil
      by_cases hcomponent : Path.Component.ofPart? part = none
      · rw [ancestorsOf_silent hbefore hcomponent] at hpath
        exact hrest hpath
      · rw [ancestorsOf_component hbefore hcomponent] at hpath
        rcases List.mem_cons.1 hpath with rfl | hpath
        · rw [Path.parts, Text.split_join (by simp)
            fun other hother => hparts other (List.mem_reverse.1 hother)] at hname
          exact Or.inl (List.mem_reverse.1 hname)
        · exact hrest hpath

/-- The names in the directories above a path are names in the path. -/
theorem mem_parts_of_mem_directories {directory : Path} (hdirectory : directory ∈ path.directories)
    (hname : name ∈ directory.parts)
    (hcomponent : Path.Component.ofPart? name = some (.name name)) : name ∈ path.parts := by
  have hcurrent : directory ≠ Path.ofString "." := by
    rintro rfl
    have hparts : (Path.ofString ".").parts = [['.']] := by decide
    rw [hparts, List.mem_singleton] at hname
    subst hname
    cases hcomponent
  have hancestor : directory ∈ path.ancestors := by
    unfold Path.directories at hdirectory
    split at hdirectory
    · exact absurd (List.mem_singleton.1 hdirectory) hcurrent
    · exact List.mem_of_mem_tail hdirectory
  unfold Path.ancestors at hancestor
  split at hancestor
  · cases hancestor
  · rcases mem_of_mem_ancestorsOf
      (fun part hpart => Text.not_mem_of_mem_split (List.mem_reverse.1 hpart)) hancestor hname with
      hmem | rfl
    · exact List.mem_reverse.1 hmem
    · cases hcomponent

/-! ## Trees with one more name -/

section

variable {entry : Entry}

theorem child_set {other : Text} (h : other ≠ name) (p : Place) :
    (tree.set (here ++ [name]) entry).child p other = tree.child p other := by
  have hplace : here ++ [name] ≠ p ++ [other] := by
    intro heq
    have hlast := congrArg List.getLast? heq
    rw [List.getLast?_concat, List.getLast?_concat] at hlast
    exact h (Option.some_inj.1 hlast).symm
  rw [child, child, get?_set tree (by simp), if_neg hplace]

theorem walk_set {parts : List Text} (h : name ∉ parts) (p : Place) :
    (tree.set (here ++ [name]) entry).walk p parts = tree.walk p parts := by
  induction parts generalizing p with
  | nil => rfl
  | cons part parts ih =>
    have hpart : part ≠ name := fun heq => h (heq ▸ List.mem_cons_self)
    have hrest := ih fun hmem => h (List.mem_cons_of_mem part hmem)
    have hstep : (tree.set (here ++ [name]) entry).walk p [part] = tree.walk p [part] := by
      rcases Path.Component.ofPart?_cases part with hcomponent | hcomponent | hcomponent
      · rw [walk_silent hcomponent, walk_silent hcomponent]
      · rw [walk_parent hcomponent, walk_parent hcomponent]
      · simp only [walk, hcomponent, child_set hpart]
    rw [walk_cons, hstep, walk_cons tree p part parts]
    cases tree.walk p [part] with
    | error e => rfl
    | ok next => exact hrest next

theorem child_set_last {parts : List Text} {other : Text} (h : name ∉ parts)
    (hlast : parts.getLast?.bind Path.Component.ofPart? = some (.name other)) (p : Place) :
    (tree.set (here ++ [name]) entry).child p other = tree.child p other := by
  obtain ⟨part, hpart, hcomponent⟩ := Option.bind_eq_some_iff.1 hlast
  cases Path.Component.eq_of_ofPart? hcomponent
  refine child_set ?_ p
  rintro rfl
  exact h (List.mem_of_getLast? hpart)

theorem lookup_set (h : name ∉ path.parts) :
    (tree.set (here ++ [name]) entry).lookup path = tree.lookup path := by
  have hfront : name ∉ path.parts.dropLast := fun hmem => h (List.mem_of_mem_dropLast hmem)
  simp only [lookup, walk_set hfront]
  split
  · rfl
  · split
    · rfl
    · split
      · next hlast => rw [child_set_last h hlast]
      · rfl

theorem destination_set (h : name ∉ path.parts) :
    (tree.set (here ++ [name]) entry).destination path = tree.destination path := by
  have hparts : name ∉ (path.parts.reverse.dropWhile (· = [])).reverse := by
    intro hmem
    exact h (List.mem_reverse.1 ((List.dropWhile_sublist _).mem (List.mem_reverse.1 hmem)))
  have hfront : name ∉ (path.parts.reverse.dropWhile (· = [])).reverse.dropLast :=
    fun hmem => hparts (List.mem_of_mem_dropLast hmem)
  simp only [destination, walk_set hfront]
  split
  · rfl
  · split
    · rfl
    · split
      · next hlast => rw [child_set_last hparts hlast]
      · rfl

end

/-! ## Replacing by way of a fresh name -/

/-- A name that no part of the path has, and nothing in the tree. -/
structure Fresh (tree : FileTree) (path : Path) (name : Text) : Prop where
  short : name.byteCount ≤ nameLimit
  parts : name ∉ path.parts
  free : ∀ here, tree.get? (here ++ [name]) = none

theorem Fresh.addsDirectories (h : tree.Fresh path name)
    (hadds : AddsDirectories path.directories tree made) : made.Fresh path name := by
  refine ⟨h.short, h.parts, fun here => ?_⟩
  cases hmade : made.get? (here ++ [name]) with
  | none => rfl
  | some entry =>
    rcases hadds.added _ _ hmade with htree | ⟨-, -, directory, hdirectory, hwalk⟩
    · rw [h.free here] at htree
      cases htree
    · rcases mem_parts_of_walk hwalk (List.mem_append_right here List.mem_cons_self) with
        hnil | ⟨hname, hcomponent⟩
      · cases hnil
      · exact absurd (mem_parts_of_mem_directories hdirectory hname hcomponent) h.parts

theorem openTemporary_of_fresh {temporary : Temporary}
    (hrefusal : temporary.refusal? .opened = none) (hfresh : tree.Fresh path temporary.name)
    {directory : Path} (hroom : checkPath (temporary.path directory).text = .ok ())
    (hwalk : tree.walk [] directory.parts = .ok here) :
    tree.openTemporary temporary directory = .ok (here ++ [temporary.name]) := by
  simp only [openTemporary, hrefusal, hroom, hwalk,
    child_eq_ok.2 ⟨hfresh.short, hfresh.free here⟩]

theorem exists_walk_directory {answer : Except StoreError Unit}
    (h : tree.ensureDirectories path.directories = (answer, made)) (hok : answer = .ok ()) :
    ∃ there, made.walk [] path.directory.parts = .ok there := by
  refine (addsDirectories_of_ensureDirectories h).2 hok _ ?_
  have hne : path.directories ≠ [] := by
    unfold Path.directories
    split
    · simp
    · next hne => exact hne
  obtain ⟨first, above, hfirst⟩ := List.exists_cons_of_ne_nil hne
  rw [Path.directory, hfirst]
  rfl

/-- What goes by way of a fresh temporary file, with no step refused and room for its path, is done
at once. -/
theorem replaceThrough_eq {temporary : Temporary}
    (hrefusal : ∀ step, temporary.refusal? step = none)
    (hroom : checkPath (temporary.path path.directory).text = .ok ())
    (hfresh : tree.Fresh path temporary.name) (text : Text) :
    tree.replaceThrough temporary path text = tree.replaceText path text := by
  unfold replaceThrough replaceText
  rcases hmade : tree.ensureDirectories path.directories with ⟨answer, made⟩
  cases answer with
  | error e => rfl
  | ok done =>
    have hadds := (addsDirectories_of_ensureDirectories hmade).1
    have hfresh := hfresh.addsDirectories hadds
    obtain ⟨here, hwalk⟩ := exists_walk_directory hmade rfl
    have hne : here ++ [temporary.name] ≠ [] := by simp
    simp only [openTemporary_of_fresh (hrefusal _) hfresh hroom hwalk, hrefusal, set_set,
      erase_set hne (hfresh.free here), landing, lookup_set hfresh.parts,
      destination_set hfresh.parts]
    cases made.lookup path with
    | ok entry => rfl
    | error e => cases e <;> rfl

end MathMarkup.FileTree
