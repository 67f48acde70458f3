import MathMarkup.Text.Digit
import MathMarkup.Text.Basic

/-!
# Bytes

How many bytes the characters of a text take in UTF-8. A byte position is the start of a character,
the end of the text, or inside of a character; from one inside no text goes on.
-/
namespace MathMarkup.Text

/-- The number of bytes that a text takes in a file. -/
def byteCount (text : Text) : Nat := text.foldr (fun c count => c.utf8Size + count) 0

/-- The text from a byte position on, if the position is not inside of a character. -/
def fromByte? : Nat → Text → Option Text
  | 0, text => some text
  | _ + 1, [] => none
  | n + 1, c :: rest => if c.utf8Size ≤ n + 1 then fromByte? (n + 1 - c.utf8Size) rest else none

theorem byteCount_append (a b : Text) : byteCount (a ++ b) = byteCount a + byteCount b := by
  induction a with
  | nil => simp [byteCount]
  | cons c a ih =>
    simp only [byteCount, List.cons_append, List.foldr_cons] at ih ⊢
    omega

theorem byteCount_cons (c : Char) (text : Text) :
    byteCount (c :: text) = c.utf8Size + byteCount text := rfl

theorem fromByte?_append (a b : Text) : fromByte? (byteCount a) (a ++ b) = some b := by
  induction a with
  | nil => simp [byteCount, fromByte?]
  | cons c a ih =>
    have hpos := c.utf8Size_pos
    obtain ⟨n, hn⟩ := Nat.exists_eq_succ_of_ne_zero (n := c.utf8Size + byteCount a) (by omega)
    rw [byteCount_cons, hn, List.cons_append, fromByte?, ← Nat.succ_eq_add_one, ← hn,
      if_pos (Nat.le_add_right _ _), Nat.add_sub_cancel_left, ih]

/-- Only the characters of ASCII take a single byte each. -/
theorem byteCount_of_isAscii {text : Text} (h : text.all isAscii = true) :
    byteCount text = text.length := by
  induction text with
  | nil => rfl
  | cons c text ih =>
    rw [List.all_cons, Bool.and_eq_true] at h
    have hc : c.utf8Size = 1 := by
      simp only [isAscii, decide_eq_true_eq] at h
      rw [Char.utf8Size_eq_one_iff, UInt32.le_iff_toNat_le]
      exact Nat.le_of_lt_succ h.1
    rw [byteCount_cons, hc, ih h.2, List.length_cons, Nat.add_comm]

end MathMarkup.Text
