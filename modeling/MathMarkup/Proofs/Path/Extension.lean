import Mathlib
import MathMarkup.Proofs.Path.Components

/-!
# Extensions of paths

An extension follows the last dot of a file name, unless that dot is the first character of the
name. A file name without one keeps all its characters when it is given one.
-/
namespace MathMarkup.Path

/-! ## Stems and extensions -/

theorem splitExtension_append {stem extension : Text} (hstem : stem ≠ [])
    (hextension : '.' ∉ extension) :
    splitExtension (stem ++ '.' :: extension) = (stem, some extension) := by
  have hreverse : (stem ++ '.' :: extension).reverse =
      extension.reverse ++ '.' :: stem.reverse := by simp
  obtain ⟨c, rest, hrest⟩ := List.exists_cons_of_ne_nil (mt List.reverse_eq_nil_iff.1 hstem)
  have hpass : ∀ d ∈ extension.reverse, decide (d ≠ '.') = true := by
    intro d hd
    rw [decide_eq_true_eq]
    rintro rfl
    exact hextension (List.mem_reverse.1 hd)
  have hstop : ∀ d after, '.' :: stem.reverse = d :: after → decide (d ≠ '.') = false := by
    rintro d after ⟨⟩
    rfl
  obtain ⟨htake, hdrop⟩ := Text.takeWhile_append hpass hstop
  unfold splitExtension
  have hback : (c :: rest).reverse = stem := by rw [← hrest, List.reverse_reverse]
  rw [hreverse, htake, hdrop, List.reverse_reverse, hrest]
  exact congrArg (fun name => (name, some extension)) hback

theorem splitExtension_of_not_mem {name : Text} (h : '.' ∉ name.tail) :
    splitExtension name = (name, none) := by
  cases name with
  | nil => rfl
  | cons c rest =>
    have hpass : ∀ d ∈ rest.reverse, decide (d ≠ '.') = true := by
      intro d hd
      rw [decide_eq_true_eq]
      rintro rfl
      exact h (List.mem_reverse.1 hd)
    unfold splitExtension
    rw [List.reverse_cons, List.dropWhile_append_of_pos hpass]
    by_cases hc : c = '.' <;> simp [hc]

theorem splitExtension_isPrefix (name : Text) : (splitExtension name).1 <+: name := by
  unfold splitExtension
  split
  · next c stem hstem =>
    have hsuffix : c :: stem <:+ name.reverse := by
      have hdot := List.dropWhile_suffix (l := name.reverse) (· ≠ '.')
      rw [hstem] at hdot
      exact (List.suffix_cons '.' (c :: stem)).trans hdot
    simpa using hsuffix.reverse
  · exact List.prefix_refl name

theorem exists_append_of_mem_tail {name : Text} (h : '.' ∈ name.tail) :
    ∃ stem extension, stem ≠ [] ∧ '.' ∉ extension ∧ name = stem ++ '.' :: extension := by
  obtain ⟨c, rest, rfl⟩ := List.exists_cons_of_ne_nil (l := name) (by rintro rfl; cases h)
  obtain ⟨after, before, hreverse, hafter⟩ :=
    List.eq_append_cons_of_mem (List.mem_reverse.2 h)
  refine ⟨c :: before.reverse, after.reverse, by simp, by simpa using hafter, ?_⟩
  have hrest := congrArg List.reverse hreverse
  simp only [List.tail_cons, List.reverse_reverse, List.reverse_append, List.reverse_cons] at hrest
  rw [hrest]
  simp

/-- A name has an extension if and only if there is a dot behind its first character. -/
theorem isSome_splitExtension {name : Text} :
    (splitExtension name).2.isSome = true ↔ '.' ∈ name.tail := by
  constructor
  · intro h
    by_contra hdot
    rw [splitExtension_of_not_mem hdot] at h
    cases h
  · intro h
    obtain ⟨stem, extension, hstem, hextension, rfl⟩ := exists_append_of_mem_tail h
    rw [splitExtension_append hstem hextension]
    rfl

theorem stem_ne_nil {name : Text} (h : name ≠ []) : (splitExtension name).1 ≠ [] := by
  by_cases hdot : '.' ∈ name.tail
  · obtain ⟨stem, extension, hstem, hextension, rfl⟩ := exists_append_of_mem_tail hdot
    rwa [splitExtension_append hstem hextension]
  · rwa [splitExtension_of_not_mem hdot]

/-! ## What is written behind the file name -/

/-- Slashes, and parts of one dot behind slashes. -/
def IsTrailing (text : Text) : Prop :=
  ∃ pieces : List Text, (∀ piece ∈ pieces, piece = "/".toList ∨ piece = "/.".toList) ∧
    text = pieces.flatten

theorem isTrailing_of_silent {tail : List Text}
    (h : ∀ part ∈ tail, Component.ofPart? part = none) :
    IsTrailing (tail.map ('/' :: ·)).flatten := by
  refine ⟨_, fun piece hpiece => ?_, rfl⟩
  obtain ⟨part, hpart, rfl⟩ := List.mem_map.1 hpiece
  have hsilent := h part hpart
  unfold Component.ofPart? at hsilent
  split_ifs at hsilent with hsays
  rcases hsays with rfl | rfl
  · exact Or.inl rfl
  · exact Or.inr rfl

theorem join_concat_append (front : List Text) (a b : Text) :
    Text.join ['/'] (front ++ [a ++ b]) = Text.join ['/'] (front ++ [a]) ++ b := by
  by_cases hfront : front = []
  · simp [hfront, Text.join]
  · rw [Text.join_append hfront (by simp), Text.join_append hfront (by simp), Text.join_singleton,
      Text.join_singleton, ← List.append_assoc]

theorem suffix_join_concat (front : List Text) (name : Text) :
    name <:+ Text.join ['/'] (front ++ [name]) := by
  have hjoin := join_concat_append front [] name
  rw [List.nil_append] at hjoin
  exact ⟨_, hjoin.symm⟩

theorem join_append_tail (front : List Text) (name : Text) (tail : List Text) :
    Text.join ['/'] (front ++ name :: tail) =
      Text.join ['/'] (front ++ [name]) ++ (tail.map ('/' :: ·)).flatten := by
  induction tail generalizing front name with
  | nil => simp
  | cons part tail ih =>
    have hpart := ih (front ++ [name]) part
    rw [List.append_assoc, List.singleton_append] at hpart
    rw [hpart, Text.join_append (by simp) (by simp), Text.join_singleton]
    simp

namespace EndsIn

variable {p : Path} {front tail : List Text} {name : Text}

theorem text_eq (h : p.EndsIn front name tail) :
    p.text = Text.join ['/'] (front ++ [name]) ++ (tail.map ('/' :: ·)).flatten := by
  rw [← join_append_tail, ← h.parts_eq, parts, Text.join_split]

theorem withExtension_eq (h : p.EndsIn front name tail) (extension : Text) :
    p.withExtension extension =
      ⟨Text.join ['/'] (front ++ [(splitExtension name).1 ++ '.' :: extension])⟩ := by
  have hdrop : p.parts.reverse.dropWhile (fun part => Component.ofPart? part = none) =
      name :: front.reverse := by
    rw [h.parts_eq, List.reverse_append, List.reverse_cons, List.append_assoc,
      List.dropWhile_append_of_pos (by simpa using h.silent)]
    simp [h.named]
  simp only [withExtension, h.fileName?_eq, hdrop, List.reverse_reverse]

/-- The file name of a path that is given an extension. -/
theorem withExtension (h : p.EndsIn front name tail) {extension : Text}
    (hslash : '/' ∉ extension) (hlength : 1 < extension.length) :
    (p.withExtension extension).EndsIn front ((splitExtension name).1 ++ '.' :: extension) [] where
  parts_eq := by
    rw [h.withExtension_eq]
    refine Path.parts_join (by simp) fun part hpart => ?_
    rcases List.mem_append.1 hpart with hpart | hpart
    · exact slash_not_mem (p := p) (by rw [h.parts_eq]; simp [hpart])
    · have hname : '/' ∉ name := slash_not_mem (p := p) (by rw [h.parts_eq]; simp)
      have hstem := (splitExtension_isPrefix name).subset
      rw [List.mem_singleton.1 hpart]
      simp only [List.mem_append, List.mem_cons, not_or]
      exact ⟨fun hmem => hname (hstem hmem), by decide, hslash⟩
  named := by
    refine ofPart?_eq_name.2 fun hmem => ?_
    have hlong : 2 < ((splitExtension name).1 ++ '.' :: extension).length := by
      simp only [List.length_append, List.length_cons]
      omega
    simp only [List.mem_cons, List.not_mem_nil, or_false] at hmem
    rcases hmem with hmem | hmem | hmem <;> rw [hmem] at hlong <;> simp at hlong
  silent := by simp

theorem withExtension_of_not_mem (h : p.EndsIn front name tail) (hdot : '.' ∉ name.tail)
    (extension : Text) :
    p.withExtension extension = ⟨Text.join ['/'] (front ++ [name]) ++ '.' :: extension⟩ := by
  rw [h.withExtension_eq, splitExtension_of_not_mem hdot, ← join_concat_append]

/-- The same text stands before a path that is joined to a directory and before its file name. -/
theorem exists_join (h : p.EndsIn front name tail) (directory : Path) :
    ∃ before more, (directory.join p).EndsIn (more ++ front) name tail ∧
      Text.join ['/'] (more ++ front ++ [name]) = before ++ Text.join ['/'] (front ++ [name]) ∧
      ∀ q : Path, q.isAbsolute = p.isAbsolute → (directory.join q).text = before ++ q.text := by
  obtain ⟨more, hjoined⟩ := h.join directory
  obtain ⟨before, hbefore⟩ := exists_text_join directory p
  have htext := hbefore p rfl
  rw [hjoined.text_eq, h.text_eq, ← List.append_assoc] at htext
  exact ⟨before, more, hjoined, List.append_cancel_right htext, hbefore⟩

/-- A path is given its extension before it is joined to a directory, or after. -/
theorem join_withExtension (h : p.EndsIn front name tail) (directory : Path) {extension : Text}
    (hslash : '/' ∉ extension) (hlength : 1 < extension.length) :
    directory.join (p.withExtension extension) = (directory.join p).withExtension extension := by
  obtain ⟨before, more, hjoined, hname, hbefore⟩ := h.exists_join directory
  have habsolute : (p.withExtension extension).isAbsolute = p.isAbsolute := by
    rw [Bool.eq_iff_iff, h.isAbsolute_iff, (h.withExtension hslash hlength).isAbsolute_iff]
  -- The text before the name also stands before its stem.
  obtain ⟨rest, hrest⟩ := splitExtension_isPrefix name
  have hstem : Text.join ['/'] (more ++ front ++ [(splitExtension name).1]) =
      before ++ Text.join ['/'] (front ++ [(splitExtension name).1]) := by
    rw [← hrest, join_concat_append, join_concat_append, ← List.append_assoc] at hname
    exact List.append_cancel_right hname
  rw [hjoined.withExtension_eq, join_concat_append, hstem, List.append_assoc, ← join_concat_append]
  have htext := hbefore _ habsolute
  rw [congrArg text (h.withExtension_eq extension)] at htext
  exact congrArg Path.mk htext

end EndsIn

theorem IsPlain.withExtension {p : Path} {extension : Text} (h : p.IsPlain)
    (hlength : 1 < extension.length) (hslash : '/' ∉ extension) (hnul : '\x00' ∉ extension) :
    (p.withExtension extension).IsPlain := by
  obtain ⟨name, hname⟩ := p.exists_parts_eq
  have hmem : name ∈ p.parts := by rw [hname]; simp
  have hends : p.EndsIn p.parts.dropLast name [] := ⟨hname, (h name hmem).ofPart?, by simp⟩
  have hrenamed := hends.withExtension hslash hlength
  intro part hpart
  rw [hrenamed.parts_eq] at hpart
  rcases List.mem_append.1 hpart with hpart | hpart
  · exact h part (List.mem_of_mem_dropLast hpart)
  · rw [List.mem_singleton.1 hpart]
    refine ⟨ofPart?_eq_name.1 hrenamed.named, ?_⟩
    simp only [List.mem_append, List.mem_cons, not_or]
    exact ⟨fun hstem => (h name hmem).2 ((splitExtension_isPrefix name).subset hstem),
      by decide, hnul⟩

theorem withExtension_of_fileName? {p : Path} (h : p.fileName? = none) (extension : Text) :
    p.withExtension extension = p := by
  unfold withExtension
  rw [h]

end MathMarkup.Path
