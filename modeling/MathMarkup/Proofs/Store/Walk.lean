import Mathlib
import MathMarkup.Proofs.Text
import MathMarkup.Store.FileTree

/-!
# Walks through file trees

Where a path leads depends on the directories alone: a walk that succeeds goes on to succeed as long
as no directory disappears, whatever is created beside it.
-/
namespace MathMarkup

theorem Path.Component.ofPart?_cases (part : Text) :
    ofPart? part = none ∨ ofPart? part = some parent ∨ ofPart? part = some (name part) := by
  unfold ofPart?
  split
  · exact Or.inl rfl
  · split
    · exact Or.inr (Or.inl rfl)
    · exact Or.inr (Or.inr rfl)

theorem Path.Component.eq_of_ofPart? {part text : Text} (h : ofPart? part = some (name text)) :
    part = text := by
  rcases ofPart?_cases part with hpart | hpart | hpart <;> rw [hpart] at h <;> cases h
  rfl

theorem Path.exists_parts_eq (path : Path) :
    ∃ part, path.parts = path.parts.dropLast ++ [part] := by
  have hne : path.parts ≠ [] := Text.split_ne_nil '/' path.text
  exact ⟨path.parts.getLast hne, (List.dropLast_concat_getLast hne).symm⟩

namespace FileTree

variable {tree made : FileTree} {here there : Place}

theorem child_eq_ok {name : Text} {found : Option Entry} :
    tree.child here name = .ok found ↔
      name.byteCount ≤ nameLimit ∧ tree.get? (here ++ [name]) = found := by
  unfold child
  split
  · next hlong => simp [hlong]
  · next hshort => simp [Nat.le_of_not_lt hshort]

/-! ## Steps of a walk -/

theorem walk_cons (tree : FileTree) (here : Place) (part : Text) (rest : List Text) :
    tree.walk here (part :: rest) =
      tree.walk here [part] >>= fun there => tree.walk there rest := by
  rw [walk, walk]
  split
  · next name hname =>
    rcases hchild : tree.child here name with e | found
    · rfl
    · rcases found with _ | entry
      · rfl
      · cases entry <;> rfl
  · rfl
  · rfl

theorem walk_append (tree : FileTree) (here : Place) (parts rest : List Text) :
    tree.walk here (parts ++ rest) =
      tree.walk here parts >>= fun there => tree.walk there rest := by
  induction parts generalizing here with
  | nil => rfl
  | cons part parts ih =>
    rw [List.cons_append, walk_cons, walk_cons tree here part parts]
    cases tree.walk here [part] with
    | error e => rfl
    | ok there => exact ih there

theorem walk_silent {part : Text} (h : Path.Component.ofPart? part = none) :
    tree.walk here [part] = .ok here := by
  simp only [walk, h]

theorem walk_parent {part : Text} (h : Path.Component.ofPart? part = some .parent) :
    tree.walk here [part] = .ok here.dropLast := by
  simp only [walk, h]

theorem walk_name_eq_ok {part : Text}
    (h : Path.Component.ofPart? part = some (.name part)) :
    tree.walk here [part] = .ok there ↔ part.byteCount ≤ nameLimit ∧
      tree.get? (here ++ [part]) = some .directory ∧ here ++ [part] = there := by
  simp only [walk, h]
  constructor
  · intro hwalk
    split at hwalk <;> cases hwalk
    next hchild =>
    obtain ⟨hshort, hfound⟩ := child_eq_ok.1 hchild
    exact ⟨hshort, hfound, rfl⟩
  · rintro ⟨hshort, hfound, rfl⟩
    rw [child_eq_ok.2 ⟨hshort, hfound⟩]

/-- Directories that stay directories are walked through as before. -/
theorem walk_mono (h : ∀ p, tree.get? p = some .directory → made.get? p = some .directory)
    {parts : List Text} (hwalk : tree.walk here parts = .ok there) :
    made.walk here parts = .ok there := by
  induction parts generalizing here with
  | nil => exact hwalk
  | cons part parts ih =>
    rw [walk_cons] at hwalk ⊢
    rcases hfirst : tree.walk here [part] with e | next
    · rw [hfirst] at hwalk
      cases hwalk
    · rw [hfirst] at hwalk
      have hstep : made.walk here [part] = .ok next := by
        rcases Path.Component.ofPart?_cases part with hpart | hpart | hpart
        · rw [walk_silent hpart] at hfirst ⊢
          exact hfirst
        · rw [walk_parent hpart] at hfirst ⊢
          exact hfirst
        · rw [walk_name_eq_ok hpart] at hfirst ⊢
          exact ⟨hfirst.1, h _ hfirst.2.1, hfirst.2.2⟩
      rw [hstep]
      exact ih hwalk

/-! ## Where a path ends -/

/-- The last part of a path is a name, and the parts before it lead to a directory. -/
structure EndsAt (tree : FileTree) (path : Path) (here : Place) (name : Text) : Prop where
  check : checkPath path.text = .ok ()
  walk : tree.walk [] path.parts.dropLast = .ok here
  last : path.parts.getLast?.bind Path.Component.ofPart? = some (.name name)
  short : name.byteCount ≤ nameLimit

namespace EndsAt

variable {path : Path} {name : Text}

theorem getLast? (h : tree.EndsAt path here name) : path.parts.getLast? = some name := by
  obtain ⟨part, hpart, hname⟩ := Option.bind_eq_some_iff.1 h.last
  rw [hpart, Path.Component.eq_of_ofPart? hname]

theorem ofPart? (h : tree.EndsAt path here name) :
    Path.Component.ofPart? name = some (.name name) := by
  have hlast := h.last
  rwa [h.getLast?] at hlast

theorem parts_eq (h : tree.EndsAt path here name) : path.parts = path.parts.dropLast ++ [name] := by
  obtain ⟨front, hfront⟩ := List.getLast?_eq_some_iff.1 h.getLast?
  rw [hfront, List.dropLast_concat]

theorem mono (h : tree.EndsAt path here name)
    (hkeep : ∀ p, tree.get? p = some .directory → made.get? p = some .directory) :
    made.EndsAt path here name :=
  ⟨h.check, walk_mono hkeep h.walk, h.last, h.short⟩

theorem unique {here' : Place} {name' : Text} (h : tree.EndsAt path here name)
    (h' : tree.EndsAt path here' name') : here = here' ∧ name = name' := by
  have hwalk := h.walk.symm.trans h'.walk
  have hlast := h.last.symm.trans h'.last
  cases hwalk
  cases hlast
  exact ⟨rfl, rfl⟩

theorem lookup (h : tree.EndsAt path here name) :
    tree.lookup path = (tree.get? (here ++ [name])).elim (.error .notFound) .ok := by
  unfold FileTree.lookup
  simp only [h.check, h.walk, h.last, child_eq_ok.2 ⟨h.short, rfl⟩]
  cases tree.get? (here ++ [name]) <;> rfl

theorem ne_nil (h : tree.EndsAt path here name) : name ≠ [] := by
  rintro rfl
  cases h.ofPart?

theorem endsInSlash (h : tree.EndsAt path here name) : endsInSlash path = false := by
  rw [FileTree.endsInSlash, decide_eq_false_iff_not]
  intro hslash
  have hlast := Text.getLast?_split_eq_nil.2 (Or.inr hslash)
  exact h.ne_nil (Option.some_inj.1 (h.getLast?.symm.trans hlast))

end EndsAt

theorem stripped_eq {path : Path} (h : path.parts.getLast? ≠ some []) :
    (path.parts.reverse.dropWhile (· = [])).reverse = path.parts := by
  obtain ⟨part, hpart⟩ := path.exists_parts_eq
  have hne : part ≠ [] := by
    rintro rfl
    exact h (by rw [hpart, List.getLast?_concat])
  rw [hpart, List.reverse_concat, List.dropWhile_cons_of_neg (by simpa using hne)]
  simp

/-- A file takes the place where its path ends, unless a directory stands there. -/
theorem destination_eq_ok {path : Path} {place : Place} :
    tree.destination path = .ok place ↔ ∃ here name, tree.EndsAt path here name ∧
      here ++ [name] = place ∧ tree.get? place ≠ some .directory := by
  constructor
  · intro h
    unfold destination at h
    simp only at h
    split at h
    · cases h
    · next hcheck =>
      split at h
      · cases h
      · next here hwalk =>
        split at h
        · next name hlast =>
          split at h
          · cases h
          · next found hchild =>
            split at h
            · cases h
            · next hslash =>
              split at h <;> cases h
              next hfound =>
              obtain ⟨hshort, hget⟩ := child_eq_ok.1 hchild
              -- a path that ends in a slash is refused, so that no empty part was dropped
              have hne : path.parts.getLast? ≠ some [] := by
                intro hnil
                rcases Text.getLast?_split_eq_nil.1 hnil with htext | htext
                · rw [htext] at hcheck
                  cases hcheck
                · exact hslash (by rw [endsInSlash, htext, decide_eq_true rfl])
              rw [stripped_eq hne] at hwalk hlast
              exact ⟨here, name, ⟨hcheck, hwalk, hlast, hshort⟩, rfl, by rwa [hget]⟩
        · cases h
  · rintro ⟨here, name, h, rfl, hfound⟩
    have hne : path.parts.getLast? ≠ some [] := by
      rw [h.getLast?]
      simpa using h.ne_nil
    unfold destination
    simp only [stripped_eq hne, h.check, h.walk, h.last, child_eq_ok.2 ⟨h.short, rfl⟩,
      h.endsInSlash, if_neg hfound]
    rfl

/-- Trees with the same directories have the same places for files. -/
theorem destination_congr {path : Path} {place : Place}
    (h : ∀ p, made.get? p = some .directory ↔ tree.get? p = some .directory) :
    made.destination path = .ok place ↔ tree.destination path = .ok place := by
  simp only [destination_eq_ok]
  constructor
  · rintro ⟨here, name, hends, hplace, hfree⟩
    exact ⟨here, name, hends.mono fun p => (h p).1, hplace, fun hp => hfree ((h place).2 hp)⟩
  · rintro ⟨here, name, hends, hplace, hfree⟩
    exact ⟨here, name, hends.mono fun p => (h p).2, hplace, fun hp => hfree ((h place).1 hp)⟩

theorem makeDirectory_eq_ok {path : Path} (h : tree.makeDirectory path = .ok made) :
    ∃ here name, tree.EndsAt path here name ∧ tree.get? (here ++ [name]) = none ∧
      made = tree.set (here ++ [name]) .directory := by
  unfold makeDirectory at h
  split at h
  · cases h
  · next hcheck =>
    split at h
    · cases h
    · next here hwalk =>
      split at h
      · next name hlast =>
        split at h <;> cases h
        next hchild =>
        obtain ⟨hshort, hget⟩ := child_eq_ok.1 hchild
        exact ⟨here, name, ⟨hcheck, hwalk, hlast, hshort⟩, hget, rfl⟩
      · cases h

theorem exists_endsAt_of_lookup {path : Path} {content : Content}
    (h : tree.lookup path = .ok (.file content)) : ∃ here name, tree.EndsAt path here name ∧
      tree.get? (here ++ [name]) = some (.file content) := by
  unfold lookup at h
  split at h
  · cases h
  · next hcheck =>
    split at h
    · cases h
    · next here hwalk =>
      split at h
      · next name hlast =>
        split at h <;> cases h
        next hchild =>
        obtain ⟨hshort, hget⟩ := child_eq_ok.1 hchild
        exact ⟨here, name, ⟨hcheck, hwalk, hlast, hshort⟩, hget⟩
      · cases h

/-! ## What leads to a directory -/

/-- A directory is where the walk along all parts of the path ends. -/
theorem exists_walk_of_lookup {path : Path} (h : tree.lookup path = .ok .directory) :
    ∃ there, tree.walk [] path.parts = .ok there := by
  obtain ⟨part, hpart⟩ := path.exists_parts_eq
  have hlast : path.parts.getLast? = some part := by rw [hpart, List.getLast?_concat]
  unfold lookup at h
  split at h
  · cases h
  · split at h
    · cases h
    · next here hwalk =>
      rw [hpart, walk_append, hwalk]
      rw [hlast, Option.bind_some] at h
      rcases Path.Component.ofPart?_cases part with hcomponent | hcomponent | hcomponent
      · exact ⟨here, walk_silent hcomponent⟩
      · exact ⟨here.dropLast, walk_parent hcomponent⟩
      · simp only [hcomponent] at h
        split at h <;> cases h
        next hchild =>
        obtain ⟨hshort, hfound⟩ := child_eq_ok.1 hchild
        exact ⟨here ++ [part], (walk_name_eq_ok hcomponent).2 ⟨hshort, hfound, rfl⟩⟩

theorem lookup_of_walk {path : Path} (hcheck : checkPath path.text = .ok ())
    (hwalk : tree.walk [] path.parts = .ok there) : tree.lookup path = .ok .directory := by
  obtain ⟨part, hpart⟩ := path.exists_parts_eq
  have hlast : path.parts.getLast? = some part := by rw [hpart, List.getLast?_concat]
  rw [hpart, walk_append] at hwalk
  unfold lookup
  cases hfront : tree.walk [] path.parts.dropLast with
  | error e =>
    rw [hfront] at hwalk
    cases hwalk
  | ok here =>
    rw [hfront] at hwalk
    simp only [hcheck, hlast, Option.bind_some]
    rcases Path.Component.ofPart?_cases part with hcomponent | hcomponent | hcomponent
    · simp only [hcomponent]
    · simp only [hcomponent]
    · obtain ⟨hshort, hfound, -⟩ := (walk_name_eq_ok hcomponent).1 hwalk
      simp only [hcomponent, child_eq_ok.2 ⟨hshort, hfound⟩]

end FileTree

end MathMarkup
