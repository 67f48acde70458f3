/-!
# Text

A text is a list of characters, so that positions, columns and lengths all count characters.
Splitting at a separator always gives at least one part, and joining the parts gives the text back.
-/
namespace MathMarkup

abbrev Text := List Char

namespace Text

/-- The parts between the occurrences of a separator. -/
def split (separator : Char) : Text → List Text
  | [] => [[]]
  | c :: rest =>
    if c = separator then [] :: split separator rest
    else (split separator rest).modifyHead (c :: ·)

def join (separator : Text) (parts : List Text) : Text := separator.intercalate parts

@[simp]
theorem split_ne_nil (separator : Char) (text : Text) : split separator text ≠ [] := by
  induction text with
  | nil => simp [split]
  | cons c rest ih =>
    unfold split
    split
    · simp
    · cases h : split separator rest with
      | nil => exact absurd h ih
      | cons part parts => simp

theorem join_split (separator : Char) (text : Text) :
    join [separator] (split separator text) = text := by
  induction text with
  | nil => simp [split, join, List.intercalate]
  | cons c rest ih =>
    unfold split
    cases h : split separator rest with
    | nil => exact absurd h (split_ne_nil separator rest)
    | cons part parts =>
      rw [h] at ih
      split
      · next hc => subst hc; simpa [join, List.intercalate] using ih
      · cases parts with
        | nil => simpa [join, List.intercalate] using ih
        | cons next parts => simpa [join, List.intercalate] using ih

theorem not_mem_of_mem_split {separator : Char} {text part : Text}
    (h : part ∈ split separator text) : separator ∉ part := by
  induction text generalizing part with
  | nil => simp_all [split]
  | cons c rest ih =>
    unfold split at h
    split at h
    · rcases List.mem_cons.1 h with rfl | h
      · simp
      · exact ih h
    · next hc =>
      cases hs : split separator rest with
      | nil => exact absurd hs (split_ne_nil separator rest)
      | cons first parts =>
        rw [hs] at h ih
        simp only [List.modifyHead_cons, List.mem_cons] at h ih
        rcases h with rfl | h
        · simp [Ne.symm hc, ih (Or.inl rfl)]
        · exact ih (Or.inr h)

end Text

end MathMarkup
