import Mathlib
import MathMarkup.Proofs.Path

/-!
# Components of joined and renamed paths

A path that is joined to a directory adds its components to those of the directory, and an extension
changes the last component alone. What is written behind the last component says nothing and goes
with the extension.
-/
namespace MathMarkup.Path

/-! ## What the parts say -/

/-- The components that the parts stand for, wherever they stand. -/
def said (parts : List Text) : List Component := parts.filterMap Component.ofPart?

theorem said_append (before after : List Text) :
    said (before ++ after) = said before ++ said after :=
  List.filterMap_append

theorem said_silent {parts : List Text} (h : ∀ part ∈ parts, Component.ofPart? part = none) :
    said parts = [] :=
  List.filterMap_eq_nil_iff.2 h

/-- What stands before the components of the parts: the root, or the working directory. -/
def lead (p : Path) : List Component :=
  if p.isAbsolute then [.root] else if p.parts.head? = some ['.'] then [.current] else []

theorem parts_of_isAbsolute {p : Path} (h : p.isAbsolute = true) :
    ∃ rest, rest ≠ [] ∧ p.parts = [] :: rest := by
  rw [isAbsolute, decide_eq_true_eq] at h
  obtain ⟨text, htext⟩ := List.head?_eq_some_iff.1 h
  exact ⟨Text.split '/' text, Text.split_ne_nil '/' text,
    by rw [parts, htext, Text.split, if_pos rfl]⟩

theorem components_eq (p : Path) : p.components = p.lead ++ said p.parts := by
  obtain ⟨first, rest, hparts⟩ := List.exists_cons_of_ne_nil p.parts_ne_nil
  simp only [components, lead, hparts, List.head?_cons, Option.some.injEq]
  split_ifs with habsolute hdot
  · obtain ⟨others, -, hothers⟩ := parts_of_isAbsolute habsolute
    cases hparts.symm.trans hothers
    rfl
  · rw [hdot]
    rfl
  · rw [said, List.nil_append, List.filterMap_cons]
    cases Component.ofPart? first <;> rfl

theorem name_not_mem_lead (p : Path) (name : Text) : .name name ∉ p.lead := by
  unfold lead
  split_ifs <;> simp

theorem getLast?_components_eq_name {p : Path} {name : Text} :
    p.components.getLast? = some (.name name) ↔ (said p.parts).getLast? = some (.name name) := by
  rw [components_eq, List.getLast?_append]
  cases hlast : (said p.parts).getLast? with
  | some c => rfl
  | none =>
    have hlead : p.lead.getLast? ≠ some (.name name) := fun hmem =>
      p.name_not_mem_lead name (List.mem_of_getLast? hmem)
    simp [hlead]

theorem fileName?_eq_some {p : Path} {name : Text} :
    p.fileName? = some name ↔ p.components.getLast? = some (.name name) := by
  unfold fileName?
  split
  · next text htext => simp [htext]
  · next hnone => exact iff_of_false (Option.some_ne_none name).symm (hnone name)

theorem name_or_parent_of_mem_said {parts : List Text} {c : Component} (h : c ∈ said parts) :
    c = .parent ∨ ∃ name, c = .name name := by
  obtain ⟨part, -, hpart⟩ := List.mem_filterMap.1 h
  unfold Component.ofPart? at hpart
  split_ifs at hpart
  · exact Or.inl (Option.some.inj hpart).symm
  · exact Or.inr ⟨part, (Option.some.inj hpart).symm⟩

/-- A path that does not step up ends in a name if there is a name in it. -/
theorem exists_fileName? {p : Path} {name : Text} (hparent : .parent ∉ p.components)
    (hname : .name name ∈ p.components) : ∃ last, p.fileName? = some last := by
  rw [components_eq, List.mem_append] at hparent hname
  have hsaid := hname.resolve_left (p.name_not_mem_lead name)
  obtain ⟨c, hc⟩ := Option.ne_none_iff_exists'.1
    (mt List.getLast?_eq_none_iff.1 (List.ne_nil_of_mem hsaid))
  have hmem := List.mem_of_getLast? hc
  rcases name_or_parent_of_mem_said hmem with rfl | ⟨last, rfl⟩
  · exact absurd (Or.inr hmem) hparent
  · exact ⟨last, fileName?_eq_some.2 (getLast?_components_eq_name.2 hc)⟩

theorem said_eq_nil {p : Path} (hparent : .parent ∉ p.components)
    (hname : ∀ name, .name name ∉ p.components) : said p.parts = [] := by
  refine List.eq_nil_iff_forall_not_mem.2 fun c hc => ?_
  have hmem : c ∈ p.components := by
    rw [components_eq]
    exact List.mem_append_right _ hc
  rcases name_or_parent_of_mem_said hc with rfl | ⟨name, rfl⟩
  · exact hparent hmem
  · exact hname name hmem

/-! ## Paths with a file name -/

/-- The last part that says something is a name. -/
structure EndsIn (p : Path) (front : List Text) (name : Text) (tail : List Text) : Prop where
  parts_eq : p.parts = front ++ name :: tail
  named : Component.ofPart? name = some (.name name)
  silent : ∀ part ∈ tail, Component.ofPart? part = none

theorem exists_endsIn {p : Path} {name : Text} (h : p.fileName? = some name) :
    ∃ front tail, p.EndsIn front name tail := by
  have hsaid := getLast?_components_eq_name.1 (fileName?_eq_some.1 h)
  have hcut : ∃ front part tail, p.parts = front ++ part :: tail ∧
      Component.ofPart? part = some (.name name) ∧
        ∀ other ∈ tail, Component.ofPart? other = none := by
    generalize p.parts = parts at hsaid
    induction parts using List.reverseRecOn with
    | nil => cases hsaid
    | append_singleton parts part ih =>
      rw [said_append] at hsaid
      cases hpart : Component.ofPart? part with
      | none =>
        have hnil : said [part] = [] := said_silent (by simpa using hpart)
        rw [hnil, List.append_nil] at hsaid
        obtain ⟨front, found, tail, rfl, hfound, htail⟩ := ih hsaid
        refine ⟨front, found, tail ++ [part], by simp, hfound, fun other hother => ?_⟩
        rcases List.mem_append.1 hother with hother | hother
        · exact htail other hother
        · rwa [List.mem_singleton.1 hother]
      | some c =>
        have hsingle : said [part] = [c] := by simp [said, hpart]
        rw [hsingle, List.getLast?_concat] at hsaid
        cases hsaid
        exact ⟨parts, part, [], rfl, hpart, by simp⟩
  obtain ⟨front, part, tail, hparts, hpart, htail⟩ := hcut
  obtain rfl := Component.eq_of_ofPart? hpart
  exact ⟨front, tail, hparts, hpart, htail⟩

namespace EndsIn

variable {p : Path} {front tail : List Text} {name : Text}

theorem said_eq (h : p.EndsIn front name tail) : said p.parts = said front ++ [.name name] := by
  have hname : said (name :: tail) = [.name name] := by
    rw [said, List.filterMap_cons_some h.named, ← said, said_silent h.silent]
  rw [h.parts_eq, said_append, hname]

theorem ne_nil (h : p.EndsIn front name tail) : name ≠ [] := by
  rintro rfl
  cases h.named

theorem isAbsolute_iff (h : p.EndsIn front name tail) :
    p.isAbsolute = true ↔ front.head? = some [] := by
  constructor
  · intro habsolute
    obtain ⟨rest, -, hrest⟩ := parts_of_isAbsolute habsolute
    rw [h.parts_eq] at hrest
    cases front with
    | nil => exact absurd (List.cons.inj hrest).1 h.ne_nil
    | cons first front => rw [List.head?_cons, (List.cons.inj hrest).1]
  · intro hhead
    obtain ⟨more, rfl⟩ := List.head?_eq_some_iff.1 hhead
    obtain ⟨next, rest, hrest⟩ := List.exists_cons_of_ne_nil
      (List.append_ne_nil_of_right_ne_nil more (List.cons_ne_nil name tail))
    have htext := Text.join_split '/' p.text
    rw [← parts, h.parts_eq, List.cons_append, hrest, Text.join_cons_cons] at htext
    rw [isAbsolute, ← htext]
    rfl

theorem lead_eq (h : p.EndsIn front name tail) : p.lead =
    if front.head? = some [] then [.root]
    else if front.head? = some ['.'] then [.current] else [] := by
  have hdot : p.parts.head? = some ['.'] ↔ front.head? = some ['.'] := by
    rw [h.parts_eq]
    cases front with
    | nil =>
      have hname : name ≠ ['.'] := by
        rintro rfl
        cases h.named
      simp [hname]
    | cons first front => rfl
  rw [lead]
  simp only [h.isAbsolute_iff, hdot]

theorem components_eq (h : p.EndsIn front name tail) :
    p.components = p.components.dropLast ++ [.name name] := by
  rw [Path.components_eq, h.said_eq, ← List.append_assoc, List.dropLast_concat]

theorem fileName?_eq (h : p.EndsIn front name tail) : p.fileName? = some name := by
  rw [fileName?_eq_some, h.components_eq, List.getLast?_concat]

/-- Another name behind the same parts is another last component. -/
theorem components_of_endsIn {q : Path} {name' : Text} {tail' : List Text}
    (h : p.EndsIn front name tail) (h' : q.EndsIn front name' tail') :
    q.components = p.components.dropLast ++ [.name name'] := by
  rw [Path.components_eq p, Path.components_eq q, h.said_eq, h'.said_eq, h.lead_eq, h'.lead_eq,
    ← List.append_assoc, ← List.append_assoc, List.dropLast_concat]

end EndsIn

/-! ## Joined paths -/

/-- The parts of a path stand behind those of the directory, except for an empty one after its
last slash. -/
theorem exists_parts_join {directory p : Path} (hrelative : p.isAbsolute = false)
    (hne : directory.text ≠ []) :
    ∃ front, front ≠ [] ∧ (directory.join p).parts = front ++ p.parts ∧
      (directory.parts = front ∨ directory.parts = front ++ [[]]) := by
  rw [join, if_neg (by simp [hrelative])]
  by_cases hslash : directory.text.getLast? = some '/'
  · obtain ⟨text, htext⟩ := List.getLast?_eq_some_iff.1 hslash
    refine ⟨Text.split '/' text, Text.split_ne_nil '/' text, ?_, Or.inr ?_⟩
    · rw [if_pos (Or.inr hslash), parts, htext, List.append_assoc]
      exact Text.split_append '/' text p.text
    · rw [parts, htext]
      exact Text.split_append '/' text []
  · refine ⟨directory.parts, directory.parts_ne_nil, ?_, Or.inl rfl⟩
    rw [if_neg (by simp [hne, hslash])]
    exact Text.split_append '/' directory.text p.text

theorem isAbsolute_join {directory p : Path} (hrelative : p.isAbsolute = false)
    (hne : directory.text ≠ []) : (directory.join p).isAbsolute = directory.isAbsolute := by
  obtain ⟨c, text, htext⟩ := List.exists_cons_of_ne_nil hne
  rw [join, if_neg (by simp [hrelative])]
  split_ifs <;> simp [isAbsolute, htext]

theorem components_join {directory p : Path} (hrelative : p.isAbsolute = false)
    (hne : directory.text ≠ []) :
    (directory.join p).components = directory.components ++ said p.parts := by
  obtain ⟨front, hfront, hparts, hdirectory⟩ := exists_parts_join hrelative hne
  obtain ⟨first, front, rfl⟩ := List.exists_cons_of_ne_nil hfront
  have hlead : (directory.join p).lead = directory.lead := by
    rw [lead, lead, isAbsolute_join hrelative hne, hparts]
    rcases hdirectory with hdirectory | hdirectory <;> rw [hdirectory] <;> rfl
  have hsaid : said directory.parts = said (first :: front) := by
    rcases hdirectory with hdirectory | hdirectory <;> rw [hdirectory]
    rw [said_append]
    simp [said, Component.ofPart?]
  rw [components_eq, components_eq directory, hlead, hparts, said_append, hsaid, List.append_assoc]

/-- The text of a joined path ends with that of the path. -/
theorem exists_text_join (directory p : Path) : ∃ before, ∀ q : Path,
    q.isAbsolute = p.isAbsolute → (directory.join q).text = before ++ q.text := by
  cases hp : p.isAbsolute with
  | true => exact ⟨[], fun q hq => by rw [join, if_pos hq, List.nil_append]⟩
  | false =>
    by_cases hslash : directory.text = [] ∨ directory.text.getLast? = some '/'
    · exact ⟨directory.text, fun q hq => by rw [join, if_neg (by simp [hq]), if_pos hslash]⟩
    · refine ⟨directory.text ++ ['/'], fun q hq => ?_⟩
      rw [join, if_neg (by simp [hq]), if_neg hslash, List.append_assoc]
      rfl

theorem EndsIn.join {p : Path} {front tail : List Text} {name : Text}
    (h : p.EndsIn front name tail) (directory : Path) :
    ∃ before, (directory.join p).EndsIn (before ++ front) name tail := by
  cases habsolute : p.isAbsolute with
  | true => exact ⟨[], by rwa [Path.join, if_pos habsolute]⟩
  | false =>
    by_cases hnil : directory.text = []
    · refine ⟨[], ?_⟩
      rw [Path.join, if_neg (by simp [habsolute]), if_pos (Or.inl hnil), hnil]
      exact h
    · obtain ⟨before, -, hparts, -⟩ := exists_parts_join habsolute hnil
      exact ⟨before, by rw [hparts, h.parts_eq, List.append_assoc], h.named, h.silent⟩

end MathMarkup.Path
