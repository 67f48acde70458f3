import Mathlib
import MathMarkup.Expr.Lexeme

/-!
# A scan takes the longest numeral

What a scan takes off the head of a text is a numeral, written with the digits that the scan
returns, and no other numeral at the head of the text is longer. A text that is a numeral as a whole
is scanned as a whole.
-/
namespace MathMarkup.Numeral

/-- The characters that may serve as digits: none of them has another use in a numeral. -/
structure IsDigitClass (digit : Char → Bool) : Prop where
  point : digit '.' = false
  mark : ∀ c, c = 'e' ∨ c = 'E' → digit c = false
  sign : ∀ c, c = '+' ∨ c = '-' → digit c = false

/-- The ways to write a mantissa with the given digits before and after the point. -/
inductive WritesMantissa (digit : Char → Bool) : Text → Text → Text → Prop
  | whole {ds : Text} : IsDigits digit ds → WritesMantissa digit ds [] ds
  | point {ds fs : Text} : (∀ c ∈ ds, digit c) → (∀ c ∈ fs, digit c) → ¬ (ds = [] ∧ fs = []) →
      WritesMantissa digit ds fs (ds ++ '.' :: fs)

/-- The ways to write an exponent of the given sign and digits, or none. -/
inductive WritesPower (digit : Char → Bool) : Option (Bool × Text) → Text → Prop
  | none : WritesPower digit none []
  | plain {mark : Char} {ds : Text} : mark = 'e' ∨ mark = 'E' → IsDigits digit ds →
      WritesPower digit (some (false, ds)) (mark :: ds)
  | signed {mark sign : Char} {ds : Text} : mark = 'e' ∨ mark = 'E' → sign = '+' ∨ sign = '-' →
      IsDigits digit ds → WritesPower digit (some (sign = '-', ds)) (mark :: sign :: ds)

/-- The text is a way to write the numeral. -/
def Writes (digit : Char → Bool) (n : Numeral) (text : Text) : Prop :=
  ∃ mantissa power, text = mantissa ++ power ∧
    WritesMantissa digit n.whole n.fraction mantissa ∧ WritesPower digit n.power power

variable {digit : Char → Bool}

/-! ## Ways to write a numeral -/

theorem isMantissa_iff {text : Text} :
    IsMantissa digit text ↔ ∃ whole fraction, WritesMantissa digit whole fraction text := by
  constructor
  · rintro (hds | ⟨hds, hfs⟩ | hfs)
    · exact ⟨_, _, .whole hds⟩
    · exact ⟨_, _, .point hds.2 hfs fun h => hds.1 h.1⟩
    · exact ⟨[], _, .point nofun hfs.2 fun h => hfs.1 h.2⟩
  · rintro ⟨_, _, hds | ⟨hds, hfs, hne⟩⟩
    · exact .whole hds
    · next ds fs =>
      by_cases hnil : ds = []
      · subst hnil
        exact .fraction ⟨fun h => hne ⟨rfl, h⟩, hfs⟩
      · exact .point ⟨hnil, hds⟩ hfs

theorem isNumeral_iff {text : Text} : IsNumeral digit text ↔ ∃ n, Writes digit n text := by
  constructor
  · rintro (hm | ⟨hm, hp⟩)
    · obtain ⟨whole, fraction, hm⟩ := isMantissa_iff.1 hm
      exact ⟨⟨whole, fraction, none⟩, _, [], by simp, hm, .none⟩
    · obtain ⟨whole, fraction, hm⟩ := isMantissa_iff.1 hm
      rcases hp with ⟨hmark, hds⟩ | ⟨hmark, hsign, hds⟩
      · exact ⟨⟨whole, fraction, _⟩, _, _, rfl, hm, .plain hmark hds⟩
      · exact ⟨⟨whole, fraction, _⟩, _, _, rfl, hm, .signed hmark hsign hds⟩
  · rintro ⟨⟨whole, fraction, power⟩, mantissa, exponent, rfl, hm, hp⟩
    have hmantissa := isMantissa_iff.2 ⟨whole, fraction, hm⟩
    cases hp with
    | none => simpa using IsNumeral.plain hmantissa
    | plain hmark hds => exact .scaled hmantissa (.plain hmark hds)
    | signed hmark hsign hds => exact .scaled hmantissa (.signed hmark hsign hds)

theorem WritesMantissa.ne_nil {whole fraction text : Text}
    (h : WritesMantissa digit whole fraction text) : text ≠ [] := by
  cases h with
  | whole hds => exact hds.1
  | point => simp

theorem Writes.ne_nil {n : Numeral} {text : Text} (h : Writes digit n text) : text ≠ [] := by
  obtain ⟨mantissa, power, rfl, hm, -⟩ := h
  exact List.append_ne_nil_of_left_ne_nil hm.ne_nil power

/-- A numeral keeps its form where its digits belong to another class as well. -/
theorem Writes.of_digits {digit' : Char → Bool} {n : Numeral} {text : Text}
    (h : Writes digit n text) (hdigit : ∀ c ∈ text, digit c = true → digit' c = true) :
    Writes digit' n text := by
  have hrun {ds : Text} (hds : ∀ c ∈ ds, digit c = true) (hmem : ∀ c ∈ ds, c ∈ text) :
      ∀ c ∈ ds, digit' c = true := fun c hc => hdigit c (hmem c hc) (hds c hc)
  obtain ⟨whole, fraction, sign⟩ := n
  obtain ⟨mantissa, power, rfl, hm, hp⟩ := h
  refine ⟨mantissa, power, rfl, ?_, ?_⟩
  · cases hm with
    | whole hds => exact .whole ⟨hds.1, hrun hds.2 fun c hc => by simp [hc]⟩
    | point hds hfs hne =>
      exact .point (hrun hds fun c hc => by simp [hc]) (hrun hfs fun c hc => by simp [hc]) hne
  · cases hp with
    | none => exact .none
    | plain hmark hds => exact .plain hmark ⟨hds.1, hrun hds.2 fun c hc => by simp [hc]⟩
    | signed hmark hsign hds =>
      exact .signed hmark hsign ⟨hds.1, hrun hds.2 fun c hc => by simp [hc]⟩

/-! ## What a scan takes -/

theorem takeSign_eq {text unsigned : Text} {negative : Bool}
    (h : takeSign text = (negative, unsigned)) : (text = unsigned ∧ negative = false) ∨
      ∃ sign, (sign = '+' ∨ sign = '-') ∧ text = sign :: unsigned ∧
        negative = decide (sign = '-') := by
  unfold takeSign at h
  split at h <;> cases h
  · exact .inr ⟨'-', .inr rfl, rfl, rfl⟩
  · exact .inr ⟨'+', .inl rfl, rfl, rfl⟩
  · exact .inl ⟨rfl, rfl⟩

theorem exists_writesPower (digit : Char → Bool) (text : Text) :
    ∃ exponent, text = exponent ++ (scanPower digit text).2 ∧
      WritesPower digit (scanPower digit text).1 exponent := by
  fun_cases scanPower digit text with
  | case1 => exact ⟨[], rfl, .none⟩
  | case2 => exact ⟨[], rfl, .none⟩
  | case3 mark rest hmark negative unsigned hsign digits hne =>
    have hcut : digits ++ unsigned.dropWhile digit = unsigned := List.takeWhile_append_dropWhile
    have hdigits : IsDigits digit digits := ⟨hne, fun _ hc => List.mem_takeWhile_imp hc⟩
    rcases takeSign_eq hsign with ⟨rfl, rfl⟩ | ⟨sign, hs, rfl, rfl⟩
    · exact ⟨mark :: digits, by rw [List.cons_append, hcut], .plain hmark hdigits⟩
    · exact ⟨mark :: sign :: digits, by rw [List.cons_append, List.cons_append, hcut],
        .signed hmark hs hdigits⟩
  | case4 => exact ⟨[], rfl, .none⟩

/-- A scan takes a way to write the numeral that it returns. -/
theorem exists_writes_of_scan {text after : Text} {n : Numeral}
    (h : scan digit text = some (n, after)) :
    ∃ lexeme, text = lexeme ++ after ∧ Writes digit n lexeme := by
  have hcut : text.takeWhile digit ++ text.dropWhile digit = text :=
    List.takeWhile_append_dropWhile
  have hwhole : ∀ c ∈ text.takeWhile digit, digit c = true := fun _ hc => List.mem_takeWhile_imp hc
  unfold scan at h
  dsimp only at h
  split at h
  · next rest hrest =>
    split at h
    · cases h
    · next hne =>
      cases h
      obtain ⟨exponent, hexponent, hpower⟩ := exists_writesPower digit (rest.dropWhile digit)
      refine ⟨_, ?_, text.takeWhile digit ++ '.' :: rest.takeWhile digit, exponent, rfl,
        .point hwhole (fun _ hc => List.mem_takeWhile_imp hc) hne, hpower⟩
      have hfraction : rest.takeWhile digit ++ rest.dropWhile digit = rest :=
        List.takeWhile_append_dropWhile
      rw [List.append_assoc, ← hexponent, List.append_assoc, List.cons_append, hfraction, ← hrest,
        hcut]
  · split at h
    · cases h
    · next hne =>
      cases h
      obtain ⟨exponent, hexponent, hpower⟩ := exists_writesPower digit (text.dropWhile digit)
      refine ⟨_, ?_, text.takeWhile digit, exponent, rfl, .whole ⟨hne, hwhole⟩, hpower⟩
      rw [List.append_assoc, ← hexponent, hcut]

/-! ## Nothing longer is left -/

theorem takeSign_of_isDigits (hclass : IsDigitClass digit) {ds rest : Text}
    (hds : IsDigits digit ds) : takeSign (ds ++ rest) = (false, ds ++ rest) := by
  obtain ⟨c, more, rfl⟩ := List.exists_cons_of_ne_nil hds.1
  have hc : digit c = true := hds.2 c List.mem_cons_self
  unfold takeSign
  split
  · next h =>
    cases h
    rw [hclass.sign '-' (.inr rfl)] at hc
    cases hc
  · next h =>
    cases h
    rw [hclass.sign '+' (.inl rfl)] at hc
    cases hc
  · rfl

/-- An exponent at the head of a text is taken, with all digits that follow it. -/
theorem scanPower_append (hclass : IsDigitClass digit) {power : Option (Bool × Text)}
    {exponent : Text} (h : WritesPower digit power exponent) (hne : exponent ≠ []) (rest : Text) :
    ∃ negative ds, power = some (negative, ds) ∧ scanPower digit (exponent ++ rest) =
      (some (negative, ds ++ rest.takeWhile digit), rest.dropWhile digit) := by
  have htaken {ds : Text} (hds : IsDigits digit ds) :
      (ds ++ rest).takeWhile digit = ds ++ rest.takeWhile digit ∧
        (ds ++ rest).dropWhile digit = rest.dropWhile digit ∧ ds ++ rest.takeWhile digit ≠ [] :=
    ⟨List.takeWhile_append_of_pos hds.2, List.dropWhile_append_of_pos hds.2,
      List.append_ne_nil_of_left_ne_nil hds.1 _⟩
  cases h with
  | none => exact absurd rfl hne
  | plain hmark hds =>
    refine ⟨_, _, rfl, ?_⟩
    obtain ⟨htake, hdrop, hnil⟩ := htaken hds
    rw [List.cons_append, scanPower, if_pos hmark, takeSign_of_isDigits hclass hds]
    simp only [htake, hdrop, hnil, if_false]
  | signed hmark hsign hds =>
    refine ⟨_, _, rfl, ?_⟩
    obtain ⟨htake, hdrop, hnil⟩ := htaken hds
    rw [List.cons_append, List.cons_append, scanPower, if_pos hmark]
    rcases hsign with rfl | rfl <;> simp [takeSign, htake, hdrop, hnil]

/-- A mantissa at the head of a text is taken, with digits and a point that go on with it. What is
left is looked at for an exponent, and it is all that follows the mantissa if that is one. -/
theorem scan_append (hclass : IsDigitClass digit) {whole fraction mantissa : Text}
    (h : WritesMantissa digit whole fraction mantissa) (rest : Text) :
    ∃ whole' fraction' left, scan digit (mantissa ++ rest) =
        some (⟨whole', fraction', (scanPower digit left).1⟩, (scanPower digit left).2) ∧
      left.length ≤ rest.length ∧
      ((∀ c ∈ rest.head?, digit c = false ∧ c ≠ '.') →
        whole' = whole ∧ fraction' = fraction ∧ left = rest) := by
  have hstop (hrest : ∀ c ∈ rest.head?, digit c = false ∧ c ≠ '.') :
      rest.takeWhile digit = [] ∧ rest.dropWhile digit = rest := by
    cases rest with
    | nil => simp
    | cons c more => simp [(hrest c rfl).1]
  have hdrop := (List.dropWhile_sublist digit (l := rest)).length_le
  cases h with
  | whole hds =>
    have htake : (whole ++ rest).takeWhile digit = whole ++ rest.takeWhile digit :=
      List.takeWhile_append_of_pos hds.2
    have hne : whole ++ rest.takeWhile digit ≠ [] := List.append_ne_nil_of_left_ne_nil hds.1 _
    unfold scan
    rw [htake, List.dropWhile_append_of_pos hds.2]
    split
    · next more hmore =>
      refine ⟨whole ++ rest.takeWhile digit, more.takeWhile digit, more.dropWhile digit,
        by simp only [hne, false_and, if_false], ?_, fun hrest => ?_⟩
      · have hsub := (List.dropWhile_sublist digit (l := more)).length_le
        rw [hmore, List.length_cons] at hdrop
        omega
      · rw [(hstop hrest).2] at hmore
        subst hmore
        exact absurd rfl (hrest '.' rfl).2
    · refine ⟨whole ++ rest.takeWhile digit, [], rest.dropWhile digit,
        by simp only [hne, if_false], hdrop, fun hrest => ?_⟩
      obtain ⟨htaken, hdropped⟩ := hstop hrest
      exact ⟨by rw [htaken, List.append_nil], rfl, hdropped⟩
  | point hds hfs hne =>
    have htake : (whole ++ '.' :: (fraction ++ rest)).takeWhile digit = whole := by
      rw [List.takeWhile_append_of_pos hds]
      simp [hclass.point]
    have hpoint : (whole ++ '.' :: (fraction ++ rest)).dropWhile digit =
        '.' :: (fraction ++ rest) := by
      rw [List.dropWhile_append_of_pos hds]
      simp [hclass.point]
    have hne' : ¬ (whole = [] ∧ fraction ++ rest.takeWhile digit = []) := by
      rw [List.append_eq_nil_iff]
      exact fun h => hne ⟨h.1, h.2.1⟩
    have hfraction : (fraction ++ rest).takeWhile digit = fraction ++ rest.takeWhile digit :=
      List.takeWhile_append_of_pos hfs
    have hleft : (fraction ++ rest).dropWhile digit = rest.dropWhile digit :=
      List.dropWhile_append_of_pos hfs
    refine ⟨whole, fraction ++ rest.takeWhile digit, rest.dropWhile digit, ?_, hdrop,
      fun hrest => ?_⟩
    · rw [List.append_assoc, List.cons_append, scan, htake, hpoint]
      simp only [hfraction, hleft, hne', if_false]
    obtain ⟨htaken, hdropped⟩ := hstop hrest
    exact ⟨rfl, by rw [htaken, List.append_nil], hdropped⟩

theorem head?_of_writesPower (hclass : IsDigitClass digit) {power : Option (Bool × Text)}
    {exponent : Text} (h : WritesPower digit power exponent) (hne : exponent ≠ []) (rest : Text) :
    ∀ c ∈ (exponent ++ rest).head?, digit c = false ∧ c ≠ '.' := by
  have hmarked {mark : Char} (hmark : mark = 'e' ∨ mark = 'E') : digit mark = false ∧ mark ≠ '.' :=
    ⟨hclass.mark mark hmark, by rcases hmark with rfl | rfl <;> decide⟩
  cases h with
  | none => exact absurd rfl hne
  | plain hmark hds =>
    rintro c ⟨⟩
    exact hmarked hmark
  | signed hmark hsign hds =>
    rintro c ⟨⟩
    exact hmarked hmark

/-- A scan takes at least as much as any numeral at the head of the text. -/
theorem exists_scan_of_writes (hclass : IsDigitClass digit) {n : Numeral} {lexeme : Text}
    (h : Writes digit n lexeme) (rest : Text) :
    ∃ n' after, scan digit (lexeme ++ rest) = some (n', after) ∧ after.length ≤ rest.length := by
  obtain ⟨mantissa, exponent, rfl, hm, hp⟩ := h
  obtain ⟨whole, fraction, left, hscan, hlen, hall⟩ := scan_append hclass hm (exponent ++ rest)
  refine ⟨_, _, by rw [List.append_assoc]; exact hscan, ?_⟩
  by_cases hnil : exponent = []
  · subst hnil
    exact Nat.le_trans (scanPower_length_le digit left) hlen
  · obtain ⟨negative, ds, -, hpower⟩ := scanPower_append hclass hp hnil rest
    rw [(hall (head?_of_writesPower hclass hp hnil rest)).2.2, hpower]
    exact (List.dropWhile_sublist digit).length_le

/-- A numeral is scanned as a whole. -/
theorem scan_of_writes (hclass : IsDigitClass digit) {n : Numeral} {lexeme : Text}
    (h : Writes digit n lexeme) : scan digit lexeme = some (n, []) := by
  obtain ⟨mantissa, exponent, rfl, hm, hp⟩ := h
  obtain ⟨whole, fraction, left, hscan, -, hall⟩ := scan_append hclass hm exponent
  have hhead : ∀ c ∈ exponent.head?, digit c = false ∧ c ≠ '.' := by
    by_cases hnil : exponent = []
    · subst hnil
      nofun
    · simpa using head?_of_writesPower hclass hp hnil []
  obtain ⟨rfl, rfl, rfl⟩ := hall hhead
  have hpower : scanPower digit left = (n.power, []) := by
    by_cases hnil : left = []
    · subst hnil
      cases hn : n.power with
      | none => rfl
      | some power =>
        rw [hn] at hp
        cases hp
    · obtain ⟨negative, ds, hn, hleft⟩ := scanPower_append hclass hp hnil []
      simpa [hn] using hleft
  rw [hscan, hpower]

/-! ## The longest numeral -/

/-- Of the numerals at the head of a text a scan takes the longest. -/
theorem isLongestPrefix_of_scan (hclass : IsDigitClass digit) {text after : Text} {n : Numeral}
    (h : scan digit text = some (n, after)) :
    ∃ lexeme, text = lexeme ++ after ∧ Writes digit n lexeme ∧
      Text.IsLongestPrefix (IsNumeral digit) lexeme text := by
  obtain ⟨lexeme, rfl, hwrites⟩ := exists_writes_of_scan h
  refine ⟨lexeme, rfl, hwrites, isNumeral_iff.2 ⟨n, hwrites⟩, List.prefix_append _ _, ?_⟩
  rintro other hother ⟨rest, hrest⟩
  obtain ⟨m, hm⟩ := isNumeral_iff.1 hother
  obtain ⟨n', after', hscan, hlen⟩ := exists_scan_of_writes hclass hm rest
  rw [hrest, h] at hscan
  cases hscan
  have htotal := congrArg List.length hrest
  simp only [List.length_append] at htotal
  omega

/-- Where a scan finds no numeral there is none. -/
theorem not_isNumeral_of_scan (hclass : IsDigitClass digit) {text : Text}
    (h : scan digit text = none) : ∀ word, word <+: text → ¬ IsNumeral digit word := by
  rintro word ⟨rest, rfl⟩ hword
  obtain ⟨n, hn⟩ := isNumeral_iff.1 hword
  obtain ⟨n', after, hscan, -⟩ := exists_scan_of_writes hclass hn rest
  rw [h] at hscan
  cases hscan

end MathMarkup.Numeral
