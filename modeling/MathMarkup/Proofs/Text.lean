import Mathlib
import MathMarkup.Text.Basic

/-!
# Runs and parts of a text

A run of characters is taken whole if what follows it does not go on with it, and a text is split
where its separators are.
-/
namespace MathMarkup.Text

theorem takeWhile_append {p : Char → Bool} {text rest : Text} (htext : ∀ c ∈ text, p c = true)
    (hrest : ∀ c after, rest = c :: after → p c = false) :
    (text ++ rest).takeWhile p = text ∧ (text ++ rest).dropWhile p = rest := by
  rw [List.takeWhile_append_of_pos htext, List.dropWhile_append_of_pos htext]
  cases rest with
  | nil => simp
  | cons c after => simp [hrest c after rfl]

theorem split_of_not_mem {separator : Char} {text : Text} (h : separator ∉ text) :
    split separator text = [text] := by
  induction text with
  | nil => rfl
  | cons c rest ih =>
    rw [List.mem_cons, not_or] at h
    rw [split, if_neg (Ne.symm h.1), ih h.2]
    rfl

theorem split_append_cons {separator : Char} {text : Text} (h : separator ∉ text) (rest : Text) :
    split separator (text ++ separator :: rest) = text :: split separator rest := by
  induction text with
  | nil => simp [split]
  | cons c text ih =>
    rw [List.mem_cons, not_or] at h
    rw [List.cons_append, split, if_neg (Ne.symm h.1), ih h.2]
    rfl

theorem split_append (separator : Char) (a b : Text) :
    split separator (a ++ separator :: b) = split separator a ++ split separator b := by
  induction a with
  | nil => simp [split]
  | cons c a ih =>
    rw [List.cons_append, split, split, ih]
    split
    · rfl
    · obtain ⟨part, parts, hparts⟩ := List.exists_cons_of_ne_nil (split_ne_nil separator a)
      rw [hparts]
      rfl

/-- A separator stands after every part but the last. -/
theorem sum_length_split (separator : Char) (text : Text) :
    ((split separator text).map fun part => part.length + 1).sum = text.length + 1 := by
  induction text with
  | nil => rfl
  | cons c rest ih =>
    rw [split]
    obtain ⟨part, parts, hparts⟩ := List.exists_cons_of_ne_nil (split_ne_nil separator rest)
    rw [hparts] at ih ⊢
    split
    · simp only [List.map_cons, List.sum_cons, List.length_nil, List.length_cons] at ih ⊢
      omega
    · simp only [List.map_cons, List.sum_cons, List.modifyHead_cons, List.length_cons] at ih ⊢
      omega

/-- The last part is empty if nothing stands after the last separator. -/
theorem getLast?_split_eq_nil {separator : Char} {text : Text} :
    (split separator text).getLast? = some [] ↔ text = [] ∨ text.getLast? = some separator := by
  induction text with
  | nil => simp [split]
  | cons c rest ih =>
    rw [split]
    obtain ⟨part, parts, hparts⟩ := List.exists_cons_of_ne_nil (split_ne_nil separator rest)
    have hjoin := join_split separator rest
    rw [hparts] at ih hjoin ⊢
    split
    · next hc =>
      subst hc
      rw [List.getLast?_cons_cons, ih]
      cases rest <;> simp
    · next hc =>
      cases parts with
      | nil =>
        have hrest : part = rest := by simpa [join] using hjoin
        subst hrest
        cases part with
        | nil => simp [hc]
        | cons d part => simpa using ih
      | cons next parts =>
        have hne : rest ≠ [] := by
          rintro rfl
          simp [split] at hparts
        rw [List.modifyHead_cons, List.getLast?_cons_cons]
        rw [List.getLast?_cons_cons] at ih
        rw [ih]
        obtain ⟨d, rest, rfl⟩ := List.exists_cons_of_ne_nil hne
        simp

theorem split_join {separator : Char} {parts : List Text} (hne : parts ≠ [])
    (h : ∀ part ∈ parts, separator ∉ part) : split separator (join [separator] parts) = parts := by
  induction parts with
  | nil => exact absurd rfl hne
  | cons part parts ih =>
    have hpart := h part List.mem_cons_self
    by_cases hnil : parts = []
    · subst hnil
      rw [join, List.intercalate_singleton, split_of_not_mem hpart]
    · have hrest := ih hnil fun other hother => h other (List.mem_cons_of_mem part hother)
      rw [join] at hrest ⊢
      rw [List.intercalate_cons_of_ne_nil hnil, List.append_assoc, List.singleton_append,
        split_append_cons hpart, hrest]

theorem join_singleton (separator part : Text) : join separator [part] = part :=
  List.intercalate_singleton

theorem join_cons_cons (separator first second : Text) (rest : List Text) :
    join separator (first :: second :: rest) =
      first ++ (separator ++ join separator (second :: rest)) := by
  simp [join, List.intercalate]

theorem join_append {separator : Text} {xs ys : List Text} (hxs : xs ≠ []) (hys : ys ≠ []) :
    join separator (xs ++ ys) = join separator xs ++ separator ++ join separator ys := by
  induction xs with
  | nil => exact absurd rfl hxs
  | cons x xs ih =>
    unfold join at ih ⊢
    by_cases hnil : xs = []
    · subst hnil
      rw [List.singleton_append, List.intercalate_cons_of_ne_nil hys, List.intercalate_singleton]
    · have happend : xs ++ ys ≠ [] := List.append_ne_nil_of_left_ne_nil hnil ys
      rw [List.cons_append, List.intercalate_cons_of_ne_nil happend,
        List.intercalate_cons_of_ne_nil hnil, ih hnil]
      simp only [List.append_assoc]

theorem not_mem_join {separator : Text} {parts : List Text} {c : Char} (hseparator : c ∉ separator)
    (h : ∀ part ∈ parts, c ∉ part) : c ∉ join separator parts := by
  induction parts with
  | nil => simp [join]
  | cons part parts ih =>
    have hpart := h part List.mem_cons_self
    have hrest := ih fun other hother => h other (List.mem_cons_of_mem part hother)
    cases parts with
    | nil => rwa [join, List.intercalate_singleton]
    | cons next parts =>
      rw [join_cons_cons]
      simp [hpart, hseparator, hrest]

/-- The parts in front of one, each with the separator after it, lead up to that one. -/
theorem eq_append_of_split {separator : Char} {text part : Text} {earlier later : List Text}
    (h : split separator text = earlier ++ part :: later) :
    ∃ rest, text = earlier.flatMap (· ++ [separator]) ++ part ++ rest := by
  have hpart : ∃ rest, join [separator] (part :: later) = part ++ rest := by
    cases later with
    | nil => exact ⟨[], by rw [join, List.intercalate_singleton, List.append_nil]⟩
    | cons next later => exact ⟨_, join_cons_cons ..⟩
  have hjoin : join [separator] (earlier ++ part :: later) =
      earlier.flatMap (· ++ [separator]) ++ join [separator] (part :: later) := by
    clear h
    induction earlier with
    | nil => rfl
    | cons first earlier ih =>
      have hhead : join [separator] ([first] ++ (earlier ++ part :: later)) =
          first ++ [separator] ++ join [separator] (earlier ++ part :: later) := by
        rw [join_append (by simp) (by simp), join, List.intercalate_singleton]
      rw [List.singleton_append, ih] at hhead
      rw [List.cons_append, hhead, List.flatMap_cons]
      simp only [List.append_assoc]
  obtain ⟨rest, hrest⟩ := hpart
  refine ⟨rest, ?_⟩
  rw [List.append_assoc, ← hrest, ← hjoin, ← h, join_split]

theorem mem_split (separator : Char) {c : Char} {text : Text} (h : c ∈ text) :
    c = separator ∨ ∃ part ∈ split separator text, c ∈ part := by
  rw [← join_split separator text] at h
  generalize split separator text = parts at h ⊢
  induction parts with
  | nil => cases h
  | cons part parts ih =>
    by_cases hnil : parts = []
    · subst hnil
      exact Or.inr ⟨part, List.mem_singleton_self part, by simpa [join] using h⟩
    · have hjoin : join [separator] ([part] ++ parts) = _ := join_append (by simp) hnil
      rw [List.singleton_append] at hjoin
      rw [hjoin, List.mem_append, List.mem_append] at h
      rcases h with (hpart | hseparator) | hrest
      · exact Or.inr ⟨part, List.mem_cons_self, by simpa [join] using hpart⟩
      · exact Or.inl (List.mem_singleton.1 hseparator)
      · rcases ih hrest with heq | ⟨other, hother, hc⟩
        · exact Or.inl heq
        · exact Or.inr ⟨other, List.mem_cons_of_mem part hother, hc⟩

end MathMarkup.Text
