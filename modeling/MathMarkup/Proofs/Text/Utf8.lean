import Mathlib
import MathMarkup.Text.Bytes

/-!
# Texts as bytes

The bytes of a text in UTF-8. No character begins inside of another one, so that the bytes of a
marker stand among those of a text only where the marker stands in the text.
-/
namespace MathMarkup.Text

def utf8 (text : Text) : List UInt8 := text.flatMap String.utf8EncodeChar

variable {text marker : Text} {front rest : List UInt8}

theorem utf8_cons (c : Char) (text : Text) :
    utf8 (c :: text) = String.utf8EncodeChar c ++ utf8 text := rfl

theorem utf8_append (a b : Text) : utf8 (a ++ b) = utf8 a ++ utf8 b := List.flatMap_append

/-- The bytes of a text are those of the string that it makes up. -/
theorem utf8ByteSize_ofList (text : Text) : (String.ofList text).utf8ByteSize = byteCount text := by
  induction text with
  | nil => rfl
  | cons c text ih =>
    rw [byteCount_cons, ← ih, String.utf8ByteSize_ofList, String.utf8ByteSize_ofList,
      String.utf8Len_cons, Nat.add_comm]

theorem isPrefix_of_utf8 {a b : Text} (h : utf8 a <+: utf8 b) : a <+: b := by
  obtain ⟨rest, hrest⟩ := h
  refine List.isPrefix_of_utf8Encode_append_eq_utf8Encode rest.toByteArray ?_
  rw [List.utf8Encode, List.utf8Encode, ← List.toByteArray_append]
  exact congrArg List.toByteArray hrest

/-- A position at which a character may begin is not inside of another one. -/
theorem exists_append_of_utf8 {b : UInt8} (hb : b.IsUTF8FirstByte)
    (h : utf8 text = front ++ b :: rest) :
    ∃ p q, text = p ++ q ∧ utf8 p = front ∧ utf8 q = b :: rest := by
  induction text generalizing front with
  | nil => simp [utf8] at h
  | cons c text ih =>
    rw [utf8_cons] at h
    rcases List.append_eq_append_iff.1 h with ⟨more, rfl, hrest⟩ | ⟨more, hfirst, hrest⟩
    · obtain ⟨p, q, rfl, rfl, hq⟩ := ih hrest
      exact ⟨c :: p, q, rfl, rfl, hq⟩
    · cases front with
      | nil => exact ⟨[], c :: text, rfl, rfl, h⟩
      | cons d front =>
        cases more with
        | nil =>
          obtain ⟨p, q, rfl, hp, hq⟩ := @ih [] hrest.symm
          refine ⟨c :: p, q, rfl, ?_, hq⟩
          rw [utf8_cons, hp, hfirst, List.append_nil, List.append_nil]
        | cons e more =>
          -- the byte is one of the character's own, and not its first
          obtain ⟨rfl, -⟩ := List.cons.inj hrest
          have hindex : (d :: front).length < (String.utf8EncodeChar c).length := by
            rw [hfirst]
            simp
          have hbyte : (String.utf8EncodeChar c)[(d :: front).length] = b := by
            simp [hfirst]
          rw [← hbyte, UInt8.isUTF8FirstByte_getElem_utf8EncodeChar] at hb
          cases hb

/-- The bytes of a marker stand only where the marker itself does. -/
theorem exists_append_of_utf8_marker (hne : marker ≠ [])
    (h : utf8 text = front ++ utf8 marker ++ rest) :
    ∃ p q, text = p ++ marker ++ q ∧ utf8 p = front ∧ utf8 q = rest := by
  obtain ⟨c, more, rfl⟩ := List.exists_cons_of_ne_nil hne
  obtain ⟨b, bytes, hbytes⟩ := List.exists_cons_of_ne_nil (String.utf8EncodeChar_ne_nil (c := c))
  have hb : b.IsUTF8FirstByte := by
    have hpos : 0 < (String.utf8EncodeChar c).length := by simp [hbytes]
    have hfirst : (String.utf8EncodeChar c)[0] = b := by simp [hbytes]
    rw [← hfirst, UInt8.isUTF8FirstByte_getElem_utf8EncodeChar]
  have hcut : utf8 text = front ++ b :: (bytes ++ utf8 more ++ rest) := by
    rw [h, utf8_cons, hbytes]
    simp
  obtain ⟨p, q, rfl, hp, hq⟩ := exists_append_of_utf8 hb hcut
  have hmarker : utf8 (c :: more) ++ rest = utf8 q := by
    rw [hq, utf8_cons, hbytes]
    simp
  obtain ⟨after, rfl⟩ := isPrefix_of_utf8 ⟨rest, hmarker⟩
  rw [utf8_append] at hmarker
  exact ⟨p, after, (List.append_assoc ..).symm, hp, (List.append_cancel_left hmarker).symm⟩

end MathMarkup.Text
