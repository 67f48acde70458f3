import Mathlib
import MathMarkup.Proofs.Scan.LongestMatch

/-!
# Blanks around a text

No lexeme has a blank in it. So a text is cut into the same lexemes whether blanks follow it or not,
and blanks in front of it only move the columns.
-/
namespace MathMarkup

theorem Text.isBlank_of_isDecimalDigit {c : Char} (h : isDecimalDigit c = true) :
    isBlank c = false := by
  have hapart : ∀ z ∈ zeroDigits, ∀ range ∈ blankRanges, z + 10 ≤ range.1 ∨ range.2 < z := by
    decide
  obtain ⟨z, hz, hdigit⟩ := List.any_eq_true.1 h
  refine List.any_eq_false.2 fun range hrange => ?_
  have hz' := hapart z hz range hrange
  simp only [Bool.and_eq_true, decide_eq_true_eq] at hdigit ⊢
  omega

/-- There is nothing in the text but blanks. -/
def Text.AllBlank (text : Text) : Prop := ∀ c ∈ text, isBlank c = true

theorem Text.allBlank_nil : AllBlank [] := by simp [AllBlank]

namespace Lexeme

/-! ## Lexemes have no blanks -/

theorem solid_of_isMantissa {text : Text} (h : Numeral.IsMantissa Text.isDecimalDigit text) :
    ∀ c ∈ text, Text.isBlank c = false := by
  have hrun {ds : Text} (hds : ∀ c ∈ ds, Text.isDecimalDigit c = true) :
      ∀ c ∈ ds, Text.isBlank c = false := fun c hc => Text.isBlank_of_isDecimalDigit (hds c hc)
  have hpoint : Text.isBlank '.' = false := by decide
  intro c hc
  cases h with
  | whole hds => exact hrun hds.2 c hc
  | point hds hfs =>
    rcases List.mem_append.1 hc with hc | hc
    · exact hrun hds.2 c hc
    · rcases List.mem_cons.1 hc with rfl | hc
      · exact hpoint
      · exact hrun hfs c hc
  | fraction hfs =>
    rcases List.mem_cons.1 hc with rfl | hc
    · exact hpoint
    · exact hrun hfs.2 c hc

theorem solid_of_isPower {text : Text} (h : Numeral.IsPower Text.isDecimalDigit text) :
    ∀ c ∈ text, Text.isBlank c = false := by
  have hmark {mark : Char} (hmark : mark = 'e' ∨ mark = 'E') : Text.isBlank mark = false := by
    rcases hmark with rfl | rfl <;> decide
  have hsign {sign : Char} (hsign : sign = '+' ∨ sign = '-') : Text.isBlank sign = false := by
    rcases hsign with rfl | rfl <;> decide
  intro c hc
  cases h with
  | plain hm hds =>
    rcases List.mem_cons.1 hc with rfl | hc
    · exact hmark hm
    · exact Text.isBlank_of_isDecimalDigit (hds.2 c hc)
  | signed hm hs hds =>
    rcases List.mem_cons.1 hc with rfl | hc
    · exact hmark hm
    · rcases List.mem_cons.1 hc with rfl | hc
      · exact hsign hs
      · exact Text.isBlank_of_isDecimalDigit (hds.2 c hc)

theorem solid_of_isNumber {word : Text} (h : IsNumber word) :
    ∀ c ∈ word, Text.isBlank c = false := by
  cases h with
  | plain hm => exact solid_of_isMantissa hm
  | scaled hm hp =>
    intro c hc
    rcases List.mem_append.1 hc with hc | hc
    · exact solid_of_isMantissa hm c hc
    · exact solid_of_isPower hp c hc

theorem solid_of_isName {word : Text} (h : isName word = true) :
    ∀ c ∈ word, Text.isBlank c = false :=
  fun c hc => (isBlank_of_isNamePart (isNamePart_of_isName h c hc)).1

theorem solid_of_reads {lexeme text : Text} {token : Token} (h : Reads lexeme text (.ok token)) :
    ∀ c ∈ lexeme, Text.isBlank c = false := by
  cases h with
  | number hlongest _ _ => exact solid_of_isNumber hlongest.isMember
  | ident _ hlongest => exact solid_of_isName hlongest.isMember
  | symbol _ _ htoken => simpa using (Token.isBlank_of_ofSymbol? htoken).1

theorem ne_nil_of_reads {lexeme text : Text} {token : Token} (h : Reads lexeme text (.ok token)) :
    lexeme ≠ [] := by
  cases h with
  | number hlongest _ _ =>
    obtain ⟨n, hn⟩ := Numeral.isNumeral_iff.1 hlongest.isMember
    exact hn.ne_nil
  | ident _ hlongest =>
    rintro rfl
    cases hlongest.isMember
  | symbol => simp

/-- A lexeme in front of what is divided already. -/
theorem Reads.cons_lexeme {word text rest : Text} {t : Token} {pieces : List Piece}
    (hreads : Reads word (word ++ text) (.ok t)) (h : Divides pieces text rest) :
    Divides (.lexeme word t :: pieces) (word ++ text) rest := by
  have hsolid := solid_of_reads hreads
  obtain ⟨c, word, rfl⟩ := List.exists_cons_of_ne_nil (ne_nil_of_reads hreads)
  exact .lexeme (hsolid c List.mem_cons_self) hreads h

/-- A text that is a single lexeme. -/
theorem Reads.divides {word : Text} {t : Token} (h : Reads word word (.ok t)) :
    Divides [.lexeme word t] word [] := by
  have hreads : Reads word (word ++ []) (.ok t) := by rwa [List.append_nil]
  have hpieces := hreads.cons_lexeme .nil
  rwa [List.append_nil] at hpieces

theorem Divides.cons_of_scan {c : Char} (word : Text) {text rest : Text} {t : Token}
    {pieces : List Piece} (hc : Text.isBlank c = false)
    (hscan : Token.scan c (word ++ text) = .ok (t, text)) (h : Divides pieces text rest) :
    Divides (.lexeme (c :: word) t :: pieces) (c :: word ++ text) rest := by
  obtain ⟨found, hfound, hreads⟩ := reads_of_scan_eq_ok hscan
  obtain rfl : word = found := List.append_cancel_right hfound
  exact .lexeme hc hreads h

/-! ## Other texts with the same lexeme -/

section

variable {lexeme text other rest word blanks : Text} {column : Nat}

theorem isLongestPrefix_of_heads {member : Text → Prop}
    (hsolid : ∀ word, member word → ∀ c ∈ word, Text.isBlank c = false)
    (hlexeme : lexeme <+: other)
    (hheads : ∀ word : Text, (∀ c ∈ word, Text.isBlank c = false) → word <+: other → word <+: text)
    (h : Text.IsLongestPrefix member lexeme text) : Text.IsLongestPrefix member lexeme other where
  isMember := h.isMember
  isPrefixOf := hlexeme
  longest word hword hprefix := h.longest word hword (hheads word (hsolid word hword) hprefix)

theorem Reads.isPrefix {r : Except ParseError.Cause Token} (h : Reads lexeme text r) :
    lexeme <+: text := by
  cases h with
  | number hlongest _ _ => exact hlongest.isPrefixOf
  | foreign hlongest _ => exact hlongest.isPrefixOf
  | ident _ hlongest => exact hlongest.isPrefixOf
  | symbol => exact List.prefix_append [_] _
  | stray => exact List.prefix_append [_] _

/-- A lexeme is read as before at the head of another text, if no words without blanks begin that
text which did not begin the first one. -/
theorem Reads.of_heads {r : Except ParseError.Cause Token} (h : Reads lexeme text r)
    (hlexeme : lexeme <+: other)
    (hheads : ∀ word : Text, (∀ c ∈ word, Text.isBlank c = false) → word <+: other →
      word <+: text) : Reads lexeme other r := by
  have hnumber (h : ∀ word, word <+: text → ¬ IsNumber word) :
      ∀ word, word <+: other → ¬ IsNumber word := fun word hprefix hword =>
    h word (hheads word (solid_of_isNumber hword) hprefix) hword
  cases h with
  | number hlongest hascii hscan =>
    exact .number (isLongestPrefix_of_heads (fun _ => solid_of_isNumber) hlexeme hheads hlongest)
      hascii hscan
  | foreign hlongest hascii =>
    exact .foreign (isLongestPrefix_of_heads (fun _ => solid_of_isNumber) hlexeme hheads hlongest)
      hascii
  | ident hnone hlongest =>
    exact .ident (hnumber hnone)
      (isLongestPrefix_of_heads (fun _ => solid_of_isName) hlexeme hheads hlongest)
  | symbol hnone hc htoken =>
    obtain ⟨after, rfl⟩ := hlexeme
    exact .symbol (hnumber hnone) hc htoken
  | stray hnone hc htoken =>
    obtain ⟨after, rfl⟩ := hlexeme
    exact .stray (hnumber hnone) hc htoken

/-! ## Blanks after a text -/

theorem isPrefix_of_append (hword : ∀ c ∈ word, Text.isBlank c = false)
    (hrest : ∀ c ∈ rest.head?, Text.isBlank c = true) (h : word <+: text ++ rest) :
    word <+: text := by
  rcases List.prefix_or_prefix_of_prefix h (List.prefix_append text rest) with hprefix | ⟨more, rfl⟩
  · exact hprefix
  · have hmore := (List.prefix_append_right_inj text).1 h
    cases more with
    | nil => rw [List.append_nil]
    | cons c more =>
      obtain ⟨after, rfl⟩ := hmore
      have hblank := hrest c rfl
      rw [hword c (by simp)] at hblank
      cases hblank

/-- What a lexeme is does not depend on what follows a blank. -/
theorem Reads.append {r : Except ParseError.Cause Token} (h : Reads lexeme text r)
    (hrest : ∀ c ∈ rest.head?, Text.isBlank c = true) : Reads lexeme (text ++ rest) r :=
  h.of_heads (h.isPrefix.trans (List.prefix_append text rest)) fun _ hword =>
    isPrefix_of_append hword hrest

theorem cuts_blanks (hblanks : blanks.AllBlank) : Cuts column blanks (.ok []) := by
  induction blanks generalizing column with
  | nil => exact .nil
  | cons c blanks ih =>
    exact .blank (hblanks c List.mem_cons_self)
      (ih fun d hd => hblanks d (List.mem_cons_of_mem c hd))

theorem Cuts.append_blanks {r : Except ParseError (List PlacedToken)} (h : Cuts column text r)
    (hblanks : blanks.AllBlank) : Cuts column (text ++ blanks) r := by
  have hhead : ∀ c ∈ blanks.head?, Text.isBlank c = true := fun c hc =>
    hblanks c (List.mem_of_head? hc)
  induction h with
  | nil => exact cuts_blanks hblanks
  | blank hc _ ih => exact .blank hc ih
  | token hc hreads _ ih =>
    have hreads' := hreads.append hhead
    rw [List.append_assoc] at hreads' ⊢
    exact .token hc hreads' ih
  | error hc hreads => exact .error hc (hreads.append hhead)

end

end Lexeme

/-! ## Scanning -/

section

variable {blanks : Text}

theorem scanFrom_append_blanks (column : Nat) (text : Text) (hblanks : blanks.AllBlank) :
    scanFrom column (text ++ blanks) = scanFrom column text :=
  (Lexeme.eq_scanFrom_of_cuts ((Lexeme.cuts_scanFrom column text).append_blanks hblanks)).symm

theorem scanFrom_blanks_append (column : Nat) (hblanks : blanks.AllBlank) (text : Text) :
    scanFrom column (blanks ++ text) = scanFrom (column + blanks.length) text := by
  induction blanks generalizing column with
  | nil => rfl
  | cons c blanks ih =>
    rw [List.cons_append, scanFrom_blank (hblanks c List.mem_cons_self),
      ih (column + 1) fun d hd => hblanks d (List.mem_cons_of_mem c hd), List.length_cons]
    congr 1
    omega

/-- Something is cut off at any character that is not blank. -/
theorem scanFrom_ne_nil {c : Char} (hc : Text.isBlank c = false) (column : Nat) (rest : Text) :
    scanFrom column (c :: rest) ≠ .ok [] := by
  cases hscan : Token.scan c rest with
  | error cause =>
    rw [scanFrom_error hc hscan]
    rintro ⟨⟩
  | ok found =>
    rw [scanFrom_token hc hscan]
    cases scanFrom (column + (rest.length + 1 - found.2.length)) found.2 <;> rintro ⟨⟩

end

end MathMarkup
