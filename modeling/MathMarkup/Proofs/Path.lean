import Mathlib
import MathMarkup.Proofs.Store.Directories

/-!
# Plain paths

Relative paths of ordinary names with single slashes between them. The components of such a path are
its names, and a plain path in a plain directory is a plain path.
-/
namespace MathMarkup

namespace Path

/-- An ordinary name, which is neither empty nor made of one or two dots. -/
def IsName (part : Text) : Prop := part ∉ [[], ['.'], ['.', '.']] ∧ '\x00' ∉ part

instance (part : Text) : Decidable (IsName part) := inferInstanceAs (Decidable (_ ∧ _))

/-- The parts of the path are ordinary names. -/
def IsPlain (p : Path) : Prop := ∀ part ∈ p.parts, IsName part

instance (p : Path) : Decidable p.IsPlain := inferInstanceAs (Decidable (∀ part ∈ p.parts, _))

theorem ofPart?_eq_name {part : Text} :
    Component.ofPart? part = some (.name part) ↔ part ∉ [[], ['.'], ['.', '.']] := by
  unfold Component.ofPart?
  split_ifs with hsilent hparent
  · rcases hsilent with rfl | rfl <;> simp
  · simp [hparent]
  · simp only [not_or] at hsilent
    simp [hsilent.1, hsilent.2, hparent]

theorem IsName.ofPart? {part : Text} (h : IsName part) :
    Component.ofPart? part = some (.name part) :=
  ofPart?_eq_name.2 h.1

theorem parts_ne_nil (p : Path) : p.parts ≠ [] := Text.split_ne_nil '/' p.text

theorem slash_not_mem {p : Path} {part : Text} (h : part ∈ p.parts) : '/' ∉ part :=
  Text.not_mem_of_mem_split h

/-- The path of some names has them as its parts. -/
theorem parts_join {names : List Text} (hne : names ≠ []) (h : ∀ name ∈ names, '/' ∉ name) :
    parts ⟨Text.join ['/'] names⟩ = names :=
  Text.split_join hne h

/-- Paths with the same parts are the same. -/
theorem eq_of_parts {p q : Path} (h : p.parts = q.parts) : p = q := by
  have htext : p.text = q.text := by
    rw [← Text.join_split '/' p.text, ← Text.join_split '/' q.text]
    exact congrArg (Text.join ['/']) h
  cases p
  cases q
  exact congrArg Path.mk htext

namespace IsPlain

variable {p directory : Path}

theorem text_ne_nil (h : p.IsPlain) : p.text ≠ [] := by
  intro hnil
  have hempty := h [] (by rw [parts, hnil]; exact List.mem_singleton_self _)
  exact hempty.1 List.mem_cons_self

theorem nul_not_mem (h : p.IsPlain) : '\x00' ∉ p.text := by
  intro hnul
  rcases Text.mem_split '/' hnul with hslash | ⟨part, hpart, hmem⟩
  · exact absurd hslash (by decide)
  · exact (h part hpart).2 hmem

theorem isAbsolute (h : p.IsPlain) : p.isAbsolute = false := by
  rw [Path.isAbsolute, decide_eq_false_iff_not]
  intro hslash
  obtain ⟨rest, hrest⟩ := List.head?_eq_some_iff.1 hslash
  have hempty := h [] (by rw [parts, hrest, Text.split, if_pos rfl]; exact List.mem_cons_self)
  exact hempty.1 List.mem_cons_self

theorem components (h : p.IsPlain) : p.components = p.parts.map .name := by
  obtain ⟨first, rest, hparts⟩ := List.exists_cons_of_ne_nil p.parts_ne_nil
  have hfirst : IsName first := h first (by rw [hparts]; exact List.mem_cons_self)
  have hdot : first ≠ ['.'] := fun hdot => hfirst.1 (by simp [hdot])
  have hrest : rest.filterMap Component.ofPart? = rest.map .name := by
    rw [← List.filterMap_eq_map]
    refine List.filterMap_congr fun part hpart => IsName.ofPart? ?_
    exact h part (by rw [hparts]; exact List.mem_cons_of_mem first hpart)
  simp only [Path.components, hparts, h.isAbsolute, if_neg hdot, hfirst.ofPart?, hrest]
  rfl

theorem parts_join (h : p.IsPlain) (hdirectory : directory.IsPlain) :
    (directory.join p).parts = directory.parts ++ p.parts := by
  have hslash : directory.text.getLast? ≠ some '/' := by
    intro hslash
    have hempty := List.mem_of_getLast? (Text.getLast?_split_eq_nil.2 (Or.inr hslash))
    exact (hdirectory [] hempty).1 List.mem_cons_self
  rw [Path.join, if_neg (by simp [h.isAbsolute]), if_neg (by simp [hdirectory.text_ne_nil, hslash])]
  exact Text.split_append '/' directory.text p.text

theorem join (h : p.IsPlain) (hdirectory : directory.IsPlain) : (directory.join p).IsPlain := by
  intro part hpart
  rw [h.parts_join hdirectory] at hpart
  rcases List.mem_append.1 hpart with hpart | hpart
  · exact hdirectory part hpart
  · exact h part hpart

end IsPlain

/-! ## Directories -/

/-- The path of all parts but the last. -/
def front (p : Path) : Path := ⟨Text.join ['/'] p.parts.dropLast⟩

theorem parts_front {p : Path} (hne : p.parts.dropLast ≠ []) :
    p.front.parts = p.parts.dropLast :=
  parts_join hne fun _ hpart => slash_not_mem (List.mem_of_mem_dropLast hpart)

theorem text_eq_front {p : Path} {name : Text} (hne : p.parts.dropLast ≠ [])
    (hparts : p.parts = p.parts.dropLast ++ [name]) : p.text = p.front.text ++ '/' :: name := by
  have hjoin := Text.join_split '/' p.text
  rw [← parts, hparts, Text.join_append hne (by simp)] at hjoin
  rw [← hjoin, front, Text.join, Text.join, List.intercalate_singleton]
  simp

namespace IsPlain

variable {p : Path}

theorem front (h : p.IsPlain) (hne : p.parts.dropLast ≠ []) : p.front.IsPlain := by
  rw [IsPlain, parts_front hne]
  exact fun part hpart => h part (List.mem_of_mem_dropLast hpart)

/-- Induction from a path of one name down along the directories. -/
theorem induction {motive : Path → Prop}
    (single : ∀ p : Path, p.IsPlain → p.parts.dropLast = [] → motive p)
    (below : ∀ p : Path, p.IsPlain → p.parts.dropLast ≠ [] → motive p.front → motive p)
    (h : p.IsPlain) : motive p := by
  induction hlength : p.parts.length generalizing p with
  | zero => exact absurd (List.length_eq_zero_iff.1 hlength) p.parts_ne_nil
  | succ n ih =>
    by_cases hnil : p.parts.dropLast = []
    · exact single p h hnil
    · refine below p h hnil (ih (h.front hnil) ?_)
      rw [parts_front hnil, List.length_dropLast, hlength, Nat.add_sub_cancel]

theorem ancestors_eq (h : p.IsPlain) :
    p.ancestors = p :: if p.parts.dropLast = [] then [] else p.front.ancestors := by
  obtain ⟨name, hname⟩ := p.exists_parts_eq
  have hreverse : p.parts.reverse = name :: p.parts.dropLast.reverse := by
    conv_lhs => rw [hname]
    exact List.reverse_concat
  rw [ancestors, if_neg h.text_ne_nil, hreverse]
  split_ifs with hnil
  · have hne : name ≠ [] := fun hempty => (h name (by rw [hname]; simp)).1 (by simp [hempty])
    have hp : p = ⟨name⟩ := by
      refine eq_of_parts ?_
      rw [hname, hnil, List.nil_append, parts, Text.split_of_not_mem]
      exact slash_not_mem (by rw [hname]; simp)
    rw [hnil, List.reverse_nil, ancestorsOf, if_neg hne, hp]
  · have hcomponent : Component.ofPart? name ≠ none := by
      rw [(h name (by rw [hname]; simp)).ofPart?]
      simp
    rw [FileTree.ancestorsOf_component (by simpa using hnil) hcomponent, ← hreverse,
      List.reverse_reverse, parts, Text.join_split, ← parts, ancestors,
      if_neg (h.front hnil).text_ne_nil, parts_front hnil]

theorem directories_eq (h : p.IsPlain) : p.directories =
    if p.parts.dropLast = [] then [ofString "."] else p.front.ancestors := by
  rw [directories, h.ancestors_eq, List.tail_cons]
  split_ifs with hnil
  · rfl
  · rw [(h.front hnil).ancestors_eq]

theorem parts_isPrefix_of_mem_ancestors {ancestor : Path} (h : p.IsPlain) :
    ancestor ∈ p.ancestors → ancestor.parts <+: p.parts := by
  refine h.induction (motive := fun p => ancestor ∈ p.ancestors → ancestor.parts <+: p.parts)
    (fun p hp hnil hancestor => ?_) fun p hp hne ih hancestor => ?_
  · rw [hp.ancestors_eq, if_pos hnil, List.mem_singleton] at hancestor
    rw [hancestor]
  · rw [hp.ancestors_eq, if_neg hne] at hancestor
    rcases List.mem_cons.1 hancestor with rfl | habove
    · exact List.prefix_rfl
    · have hfront := ih habove
      rw [parts_front hne] at hfront
      exact hfront.trans (List.dropLast_prefix p.parts)

end IsPlain

end Path

end MathMarkup
