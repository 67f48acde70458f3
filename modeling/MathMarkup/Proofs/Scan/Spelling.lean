import Mathlib
import MathMarkup.Proofs.Number.Text
import MathMarkup.Proofs.Scan.Columns

/-!
# Spelling tokens

A text spells tokens if scanning finds them wherever the text stands, as long as no lexeme goes on
into what follows. Texts that spell tokens are put together from numbers, names, punctuation and
blanks.
-/
namespace MathMarkup

/-- The text is scanned as the tokens, and is part of a single side. -/
structure Spells (text : Text) (ts : List Token) : Prop where
  scanned : ∀ (column : Nat) (rest : Text), EndsLexeme rest →
    ∃ tokens : List PlacedToken, tokens.map PlacedToken.token = ts ∧
      scanFrom column (text ++ rest) =
        (scanFrom (column + text.length) rest).map (tokens ++ ·)
  oneSide : '=' ∉ text

theorem EndsLexeme.append {text : Text} (h : EndsLexeme text) (hne : text ≠ []) (rest : Text) :
    EndsLexeme (text ++ rest) := by
  cases text with
  | nil => exact absurd rfl hne
  | cons c text =>
    rintro d after ⟨⟩
    exact h c text rfl

theorem endsLexeme_cons {c : Char} (hpart : isNamePart c = false)
    (hdigit : Text.isDecimalDigit c = false) (hpoint : c ≠ '.') (rest : Text) :
    EndsLexeme (c :: rest) := by
  rintro d after ⟨⟩
  exact ⟨hpart, hdigit, hpoint⟩

namespace Spells

/-! ## Putting texts together -/

theorem nil : Spells [] [] where
  scanned column rest _ := ⟨[], rfl, by cases h : scanFrom column rest <;> simp [h, Except.map]⟩
  oneSide := by simp

/-- A text may follow another if no lexeme of that one goes on into it. -/
theorem append {a b : Text} {ts us : List Token} (ha : Spells a ts) (hb : Spells b us)
    (hne : b ≠ []) (hends : EndsLexeme b) : Spells (a ++ b) (ts ++ us) where
  scanned column rest hrest := by
    obtain ⟨tokens, htokens, hscana⟩ := ha.scanned column (b ++ rest) (hends.append hne rest)
    obtain ⟨others, hothers, hscanb⟩ := hb.scanned (column + a.length) rest hrest
    refine ⟨tokens ++ others, by simp [htokens, hothers], ?_⟩
    rw [List.append_assoc, hscana, hscanb, List.length_append, Nat.add_assoc]
    cases scanFrom (column + (a.length + b.length)) rest <;> simp [Except.map]
  oneSide := by simp [ha.oneSide, hb.oneSide]

theorem ofText {text : Text} {ts : List Token} (h : Spells text ts) :
    Token.ofText text = .ok ts := by
  obtain ⟨tokens, htokens, hscan⟩ := h.scanned 1 [] endsLexeme_nil
  rw [List.append_nil, scanFrom_nil] at hscan
  rw [Token.ofText, tokenize, hscan]
  simp [Except.map, htokens]

theorem blank_cons {c : Char} {text : Text} {ts : List Token} (hc : Text.isBlank c = true)
    (h : Spells text ts) : Spells (c :: text) ts where
  scanned column rest hrest := by
    obtain ⟨tokens, htokens, hscan⟩ := h.scanned (column + 1) rest hrest
    refine ⟨tokens, htokens, ?_⟩
    rw [List.cons_append, scanFrom_blank hc, hscan, List.length_cons, Nat.add_right_comm,
      Nat.add_assoc]
  oneSide hmem := by
    rcases List.mem_cons.1 hmem with rfl | hmem
    · exact absurd hc (by decide)
    · exact h.oneSide hmem

/-- A token that is found at the head of a text, whatever follows it. -/
theorem token_cons {c : Char} {text : Text} {token : Token} {ts : List Token}
    (hc : Text.isBlank c = false) (hside : c ≠ '=')
    (hscan : ∀ rest, Token.scan c rest = .ok (token, rest)) (h : Spells text ts) :
    Spells (c :: text) (token :: ts) where
  scanned column rest hrest := by
    obtain ⟨tokens, htokens, hscan'⟩ := h.scanned (column + 1) rest hrest
    refine ⟨⟨token, column⟩ :: tokens, by simp [htokens], ?_⟩
    have hcolumn : column + ((text ++ rest).length + 1 - (text ++ rest).length) = column + 1 := by
      omega
    rw [List.cons_append, scanFrom_token hc (hscan _), hcolumn, hscan', List.length_cons,
      Nat.add_comm text.length 1, ← Nat.add_assoc]
    cases scanFrom (column + 1 + text.length) rest <;> rfl
  oneSide := by simp [Ne.symm hside, h.oneSide]

/-- A lexeme that is found whole at the head of a text. -/
theorem lexeme {c : Char} {text : Text} {token : Token} (hc : Text.isBlank c = false)
    (hside : '=' ∉ c :: text)
    (hscan : ∀ rest, EndsLexeme rest → Token.scan c (text ++ rest) = .ok (token, rest)) :
    Spells (c :: text) [token] where
  scanned column rest hrest := by
    refine ⟨[⟨token, column⟩], rfl, ?_⟩
    have hcolumn : column + ((text ++ rest).length + 1 - rest.length) =
        column + (c :: text).length := by
      simp only [List.length_append, List.length_cons]
      omega
    rw [List.cons_append, scanFrom_token hc (hscan rest hrest), hcolumn]
    rfl
  oneSide := hside

end Spells

/-! ## Punctuation -/

theorem Token.scan_of_ofSymbol? {c : Char} {token : Token} (h : Token.ofSymbol? c = some token)
    (rest : Text) : Token.scan c rest = .ok (token, rest) := by
  have hnone (d : Char) (hd : Text.isDecimalDigit d = false) (hpoint : d ≠ '.') :
      Numeral.scan Text.isDecimalDigit (d :: rest) = none := by
    simp [Numeral.scan, hd, hpoint]
  unfold Token.ofSymbol? at h
  unfold Token.scan
  split at h <;> cases h <;> rw [hnone _ (by decide) (by decide)] <;> rfl

theorem Token.isBlank_of_ofSymbol? {c : Char} {token : Token} (h : Token.ofSymbol? c = some token) :
    Text.isBlank c = false ∧ c ≠ '=' := by
  unfold Token.ofSymbol? at h
  split at h <;> cases h <;> decide

theorem Spells.symbol_cons {c : Char} {text : Text} {token : Token} {ts : List Token}
    (hc : Token.ofSymbol? c = some token) (h : Spells text ts) :
    Spells (c :: text) (token :: ts) :=
  have hplain := Token.isBlank_of_ofSymbol? hc
  token_cons hplain.1 hplain.2 (Token.scan_of_ofSymbol? hc) h

/-! ## Names and numbers -/

theorem isNameStart_bounds {c : Char} (h : isNameStart c = true) :
    65 ≤ c.toNat ∧ c.toNat ≤ 122 := by
  simp only [isNameStart, Char.isAlpha, Char.isUpper, Char.isLower, Bool.or_eq_true,
    Bool.and_eq_true, decide_eq_true_eq, ge_iff_le, UInt32.le_iff_toNat_le] at h
  have hval : c.toNat = c.val.toNat := rfl
  have hcodes : 'A'.val.toNat = 65 ∧ 'Z'.val.toNat = 90 ∧ 'a'.val.toNat = 97 ∧
      'z'.val.toNat = 122 := by decide
  rcases h with (h | h) | rfl
  · omega
  · omega
  · decide

theorem isNamePart_of_isDigit {c : Char} (h : c.isDigit = true) : isNamePart c = true := by
  simp [isNamePart, Char.isAlphanum, h]

theorem isNamePart_of_isNameStart {c : Char} (h : isNameStart c = true) : isNamePart c = true := by
  simp only [isNameStart, Bool.or_eq_true] at h
  rcases h with h | h <;> simp [isNamePart, Char.isAlphanum, h]

theorem isNamePart_bounds {c : Char} (h : isNamePart c = true) : 48 ≤ c.toNat ∧ c.toNat ≤ 122 := by
  have hcases : isNameStart c = true ∨ c.isDigit = true := by
    simp only [isNamePart, Char.isAlphanum, Bool.or_eq_true] at h
    simp only [isNameStart, Bool.or_eq_true]
    rcases h with (h | h) | h
    · exact .inl (.inl h)
    · exact .inr h
    · exact .inl (.inr h)
  rcases hcases with h | h
  · have := isNameStart_bounds h
    omega
  · simp only [Char.isDigit, Bool.and_eq_true, decide_eq_true_eq, ge_iff_le,
      UInt32.le_iff_toNat_le] at h
    have hval : c.toNat = c.val.toNat := rfl
    have hcodes : '0'.val.toNat = 48 ∧ '9'.val.toNat = 57 := by decide
    omega

theorem isBlank_of_isNamePart {c : Char} (h : isNamePart c = true) :
    Text.isBlank c = false ∧ c ≠ '=' := by
  have hbounds := isNamePart_bounds h
  constructor
  · simp only [Text.isBlank, Text.blankRanges, List.any_cons, List.any_nil, Bool.or_eq_false_iff,
      Bool.and_eq_false_iff, decide_eq_false_iff_not, and_true]
    omega
  · rintro rfl
    exact absurd h (by decide)

theorem isAscii_of_isNamePart {c : Char} (h : isNamePart c = true) : Text.isAscii c = true := by
  have hbounds := isNamePart_bounds h
  simp only [Text.isAscii, decide_eq_true_eq]
  omega

theorem isNamePart_of_isName {name : Text} (h : isName name = true) :
    ∀ c ∈ name, isNamePart c = true := by
  cases name with
  | nil => nofun
  | cons c rest =>
    simp only [isName, Bool.and_eq_true, List.all_eq_true] at h
    intro d hd
    rcases List.mem_cons.1 hd with rfl | hd
    · exact isNamePart_of_isNameStart h.1
    · exact h.2 d hd

theorem scan_eq_none_of_isNameStart {c : Char} {rest : Text} (h : isNameStart c = true) :
    Numeral.scan Text.isDecimalDigit (c :: rest) = none := by
  have hbounds := isNameStart_bounds h
  have hdigit : Text.isDecimalDigit c = false := by
    simp only [Text.isDecimalDigit, Text.zeroDigits, List.any_cons, List.any_nil,
      Bool.or_eq_false_iff, Bool.and_eq_false_iff, decide_eq_false_iff_not, and_true]
    omega
  have hpoint : c ≠ '.' := by
    rintro rfl
    exact absurd h (by decide)
  simp [Numeral.scan, hdigit, hpoint]

theorem Spells.ident {name : Text} (h : isName name = true) : Spells name [.ident name] := by
  cases name with
  | nil => cases h
  | cons c rest =>
    simp only [isName, Bool.and_eq_true, List.all_eq_true] at h
    obtain ⟨hstart, hparts⟩ := h
    have hpart : ∀ d ∈ c :: rest, isNamePart d = true := by
      intro d hd
      rcases List.mem_cons.1 hd with rfl | hd
      · exact isNamePart_of_isNameStart hstart
      · exact hparts d hd
    refine lexeme (isBlank_of_isNamePart (hpart c List.mem_cons_self)).1
      (fun hmem => (isBlank_of_isNamePart (hpart '=' hmem)).2 rfl) fun after hafter => ?_
    obtain ⟨htake, hdrop⟩ := Text.takeWhile_append hparts fun d more hd => (hafter d more hd).1
    rw [Token.scan, scan_eq_none_of_isNameStart hstart]
    dsimp only
    rw [if_pos hstart, htake, hdrop]

theorem Spells.number {v : Binary64} (hsign : v.negative = false) (hfinite : v.isFinite = true) :
    Spells (Binary64.shortest v.code).toText [.number v] := by
  have hcode : v.code < Binary64.infinityCode := by simpa [Binary64.isFinite] using hfinite
  obtain ⟨whole, fraction, hwritten, -⟩ := (Binary64.shortest v.code).exists_isWritten
  have hround : (⟨whole, fraction, none⟩ : Numeral).toDecimal.round false = v := by
    have h := Binary64.round_of_isWritten hcode hwritten
    cases v
    simp_all [Decimal.round, Binary64.ofCode]
  have hchars : ∀ c ∈ Numeral.positional whole fraction, c.isDigit = true ∨ c = '.' :=
    Numeral.isDigit_or_point hwritten.isDigit
  have hside : '=' ∉ Numeral.positional whole fraction := fun hmem =>
    absurd (hchars '=' hmem) (by decide)
  have hascii : (Numeral.positional whole fraction).all Text.isAscii = true := by
    rw [List.all_eq_true]
    intro c hc
    rcases hchars c hc with h | rfl
    · exact isAscii_of_isNamePart (isNamePart_of_isDigit h)
    · decide
  rw [hwritten.toText_eq]
  have hne := hwritten.whole_ne_nil
  cases whole with
  | nil => exact absurd rfl hne
  | cons c digits =>
    have hdigit : c.isDigit = true := hwritten.isDigit c (by simp)
    obtain ⟨text, htext⟩ : ∃ text, Numeral.positional (c :: digits) fraction = c :: text := ⟨_, rfl⟩
    rw [htext] at hside hascii ⊢
    refine lexeme (isBlank_of_isNamePart (isNamePart_of_isDigit hdigit)).1 hside
      fun rest hrest => ?_
    have hscan := Numeral.scan_positional hne hwritten.isDigit hrest
    rw [htext, List.cons_append] at hscan
    -- the lexeme is cut out by its length
    have hlexeme : (c :: (text ++ rest)).take ((text ++ rest).length + 1 - rest.length) =
        c :: text := by
      rw [← List.cons_append, List.length_append, Nat.add_right_comm, Nat.add_sub_cancel,
        ← List.length_cons, List.take_left]
    rw [Token.scan, hscan]
    dsimp only
    rw [hlexeme, if_pos hascii, hround]

end MathMarkup
