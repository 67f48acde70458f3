import Mathlib
import MathMarkup.Proofs.Scan.Lexemes
import MathMarkup.Text.Bytes

/-!
# Scanning by byte positions

The tokens of a text are found by stepping through its bytes as well: a lexeme is of ASCII, so that
it has as many bytes as characters, and a position never comes to stand inside of a character.
-/
namespace MathMarkup

theorem Token.isAscii_of_ofSymbol? {c : Char} {token : Token} (h : Token.ofSymbol? c = some token) :
    Text.isAscii c = true := by
  unfold Token.ofSymbol? at h
  split at h <;> cases h <;> decide

/-- Every lexeme that stands for a token is of ASCII. -/
theorem Lexeme.isAscii_of_reads {lexeme text : Text} {token : Token}
    (h : Reads lexeme text (.ok token)) : lexeme.all Text.isAscii = true := by
  cases h with
  | number _ hascii _ => exact hascii
  | ident _ hlongest =>
    exact List.all_eq_true.2 fun c hc =>
      isAscii_of_isNamePart (isNamePart_of_isName hlongest.isMember c hc)
  | symbol _ _ htoken => simp [Token.isAscii_of_ofSymbol? htoken]

theorem Token.exists_word_of_scan {c : Char} {rest after : Text} {token : Token}
    (h : Token.scan c rest = .ok (token, after)) :
    ∃ word, rest = word ++ after ∧
      Text.byteCount (c :: rest) - after.byteCount = (c :: word).length := by
  obtain ⟨word, rfl, hreads⟩ := Lexeme.reads_of_scan_eq_ok h
  refine ⟨word, rfl, ?_⟩
  rw [← List.cons_append, Text.byteCount_append, Nat.add_sub_cancel,
    Text.byteCount_of_isAscii (Lexeme.isAscii_of_reads hreads)]

/-- The tokens of a text from a byte position on, where the position and the column of the next
character go on together: over a blank by its bytes and by one, over a lexeme both by the bytes of
the lexeme. No tokens are found from a position inside of a character. -/
def scanAt (text : Text) (position column : Nat) : Option (Except ParseError (List PlacedToken)) :=
  if _hposition : position < text.byteCount then
    match text.fromByte? position with
    | none => none
    | some [] => some (.ok [])
    | some (c :: rest) =>
      if Text.isBlank c then scanAt text (position + c.utf8Size) (column + 1)
      else
        match _hscan : Token.scan c rest with
        | .error cause => some (.error ⟨cause, some column⟩)
        | .ok (token, after) =>
          let bytes := Text.byteCount (c :: rest) - after.byteCount
          (scanAt text (position + bytes) (column + bytes)).map fun r =>
            r.map (⟨token, column⟩ :: ·)
  else some (.ok [])
termination_by text.byteCount - position
decreasing_by
  · have := c.utf8Size_pos
    omega
  · obtain ⟨word, -, hbytes⟩ := Token.exists_word_of_scan _hscan
    rw [List.length_cons] at hbytes
    omega

/-! ## One step -/

section Step

variable {front rest : Text} {c : Char} {column : Nat}

theorem byteCount_lt_append_cons : front.byteCount < (front ++ c :: rest).byteCount := by
  have := c.utf8Size_pos
  rw [Text.byteCount_append, Text.byteCount_cons]
  omega

theorem scanAt_end : scanAt front front.byteCount column = some (.ok []) := by
  rw [scanAt, dif_neg (Nat.lt_irrefl _)]

theorem scanAt_blank (hc : Text.isBlank c = true) :
    scanAt (front ++ c :: rest) front.byteCount column =
      scanAt (front ++ c :: rest) (front ++ [c]).byteCount (column + 1) := by
  have hnext : (front ++ [c]).byteCount = front.byteCount + c.utf8Size := Text.byteCount_append ..
  rw [scanAt, dif_pos byteCount_lt_append_cons, Text.fromByte?_append, hnext]
  exact if_pos hc

theorem scanAt_error {cause : ParseError.Cause} (hc : Text.isBlank c = false)
    (h : Token.scan c rest = .error cause) :
    scanAt (front ++ c :: rest) front.byteCount column = some (.error ⟨cause, some column⟩) := by
  rw [scanAt, dif_pos byteCount_lt_append_cons, Text.fromByte?_append]
  dsimp only
  rw [if_neg (by simp [hc])]
  split
  · next hs => rw [h] at hs; cases hs; rfl
  · next hs => rw [h] at hs; cases hs

theorem scanAt_token {after : Text} {token : Token} (hc : Text.isBlank c = false)
    (h : Token.scan c rest = .ok (token, after)) :
    ∃ word, scanAt (front ++ c :: rest) front.byteCount column =
      (scanAt ((front ++ c :: word) ++ after) (front ++ c :: word).byteCount
        (column + (rest.length + 1 - after.length))).map fun r => r.map (⟨token, column⟩ :: ·) := by
  obtain ⟨word, rfl, hbytes⟩ := Token.exists_word_of_scan h
  refine ⟨word, ?_⟩
  have hlength : (word ++ after).length + 1 - after.length = (c :: word).length := by
    simp only [List.length_append, List.length_cons]
    omega
  have hnext : front.byteCount + (c :: word).length = (front ++ c :: word).byteCount := by
    rw [← hbytes, Text.byteCount_append, ← List.cons_append, Text.byteCount_append,
      Nat.add_sub_cancel]
  rw [scanAt, dif_pos byteCount_lt_append_cons, Text.fromByte?_append]
  dsimp only
  rw [if_neg (by simp [hc])]
  split
  · next hs => rw [h] at hs; cases hs
  · next hs =>
    rw [h] at hs
    cases hs
    rw [hbytes, hlength, hnext, List.append_assoc, List.cons_append]

end Step

/-! ## All steps -/

/-- Stepping through the bytes of a text finds what stepping through its characters does. -/
theorem scanAt_byteCount (front rest : Text) (column : Nat) :
    scanAt (front ++ rest) front.byteCount column = some (scanFrom column rest) := by
  fun_induction scanFrom column rest generalizing front with
  | case1 column => rw [List.append_nil, scanAt_end]
  | case2 column c rest hc ih =>
    rw [scanAt_blank hc, List.append_cons, ih]
  | case3 column c rest hc cause h => rw [scanAt_error (by simpa using hc) h]
  | case4 column c rest hc token after h e hs ih =>
    obtain ⟨word, hstep⟩ := scanAt_token (by simpa using hc) h
    rw [hstep, ih, hs]
    rfl
  | case5 column c rest hc token after h tokens hs ih =>
    obtain ⟨word, hstep⟩ := scanAt_token (by simpa using hc) h
    rw [hstep, ih, hs]
    rfl

end MathMarkup
