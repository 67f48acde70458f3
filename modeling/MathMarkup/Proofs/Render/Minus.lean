import Mathlib
import MathMarkup.Expr.Minus
import MathMarkup.Proofs.Render.Tokens

/-!
# Which operators come right before a minus sign

A right operand gets parentheses for its own node alone. One that is itself an operation and binds
strongly enough has none, and if a minus sign opens it, the sign stands right after the operator.
No other operator is followed by a minus sign.
-/
namespace MathMarkup

open Markup

/-! ## Texts whose share of the count does not depend on what follows -/

/-- No operator has the character as its first. -/
def startsNoOperator (c : Char) : Bool := c ≠ '+' && c ≠ '-' && c ≠ '\\' && c ≠ '/'

theorem startsNoOperator_of_isNamePart {c : Char} (h : isNamePart c = true) :
    startsNoOperator c = true := by
  simp only [startsNoOperator, Bool.and_eq_true, decide_eq_true_eq]
  refine ⟨⟨⟨?_, ?_⟩, ?_⟩, ?_⟩ <;> rintro rfl <;> exact absurd h (by decide)

namespace BinaryOp

theorem exists_markup_eq (op : BinaryOp) : ∃ c word, op.markup = c :: word ∧
    startsNoOperator c = false ∧ word.all startsNoOperator = true := by
  cases op with
  | add => exact ⟨'+', [], rfl, rfl, rfl⟩
  | sub => exact ⟨'-', [], rfl, rfl, rfl⟩
  | mul => exact ⟨'\\', "cdot".toList, by decide, rfl, by decide⟩
  | div => exact ⟨'/', [], rfl, rfl, rfl⟩

theorem eq_of_head?_markup {op other : BinaryOp} (h : op.markup.head? = other.markup.head?) :
    op = other := by
  cases op <;> cases other <;> first | rfl | exact absurd h (by decide)

end BinaryOp

/-- The text adds the number to the count, whatever comes next. -/
def Adds (op : BinaryOp) (n : Nat) (text : Text) : Prop :=
  ∀ rest, minusesAfter op (text ++ rest) = n + minusesAfter op rest

/-- The text has a first character, which tells whether it is a minus sign. -/
def Begins (minus : Bool) (text : Text) : Prop :=
  ∃ c rest, text = c :: rest ∧ c ≠ ' ' ∧ c ≠ '\x7b' ∧ (c = '-' ↔ minus = true)

variable {op : BinaryOp} {n m : Nat} {a b text : Text} {minus : Bool}

theorem leadsToMinus_of_head?_ne (h : op.markup.head? ≠ text.head?) :
    leadsToMinus op text = false := by
  obtain ⟨c, word, hmarkup, -, -⟩ := op.exists_markup_eq
  rw [hmarkup, List.head?_cons] at h
  unfold leadsToMinus
  rw [hmarkup]
  cases text with
  | nil => rfl
  | cons d text =>
    have hcd : (c == d) = false := by simpa using h
    rw [List.isPrefixOf, hcd]
    rfl

theorem adds_nil : Adds op 0 [] := fun _ => (Nat.zero_add _).symm

theorem Adds.append (ha : Adds op n a) (hb : Adds op m b) : Adds op (n + m) (a ++ b) := by
  intro rest
  rw [List.append_assoc, ha, hb, Nat.add_assoc]

theorem Adds.cons {c : Char} (hc : startsNoOperator c = true) (h : Adds op n text) :
    Adds op n (c :: text) := by
  intro rest
  have hhead : op.markup.head? ≠ (c :: (text ++ rest)).head? := by
    obtain ⟨d, word, hmarkup, hd, -⟩ := op.exists_markup_eq
    rw [hmarkup, List.head?_cons, List.head?_cons]
    rintro ⟨⟩
    rw [hc] at hd
    cases hd
  rw [List.cons_append, minusesAfter, leadsToMinus_of_head?_ne hhead, if_neg Bool.false_ne_true,
    Nat.zero_add, h]

theorem adds_zero (h : text.all startsNoOperator = true) : Adds op 0 text := by
  induction text with
  | nil => exact adds_nil
  | cons c text ih =>
    rw [List.all_cons, Bool.and_eq_true] at h
    exact (ih h.2).cons h.1

theorem Adds.parenthesizeIf (needed : Bool) (h : Adds op n text) :
    Adds op n (MathMarkup.parenthesizeIf needed text) := by
  cases needed with
  | false => exact h
  | true => exact Adds.cons rfl (h.append (adds_zero rfl))

theorem Begins.of_isNamePart {c : Char} (h : isNamePart c = true) (rest : Text) :
    Begins false (c :: rest) := by
  refine ⟨c, rest, rfl, ?_, ?_, ?_⟩
  · rintro rfl
    cases h
  · rintro rfl
    cases h
  · constructor
    · rintro rfl
      cases h
    · rintro ⟨⟩

theorem Begins.append (h : Begins minus a) (b : Text) : Begins minus (a ++ b) := by
  obtain ⟨c, rest, rfl, hc⟩ := h
  exact ⟨c, rest ++ b, rfl, hc⟩

theorem Begins.parenthesizeIf (needed : Bool) (h : Begins minus text) :
    Begins (!needed && minus) (MathMarkup.parenthesizeIf needed text) := by
  cases needed with
  | false => exact h
  | true => exact ⟨'(', text ++ [')'], rfl, by decide, by decide, by simp⟩

theorem Begins.head?_iff (h : Begins minus text) : text.head? = some '-' ↔ minus = true := by
  obtain ⟨c, rest, rfl, -, -, hc⟩ := h
  rw [← hc, List.head?_cons, Option.some_inj]

/-! ## An operator and its right operand -/

/-- What may stand between the symbol of an operator and its right operand. -/
def IsGap (gap : Text) : Prop := gap = [] ∨ gap = [' '] ∨ gap = ['\x7b', '\x7d']

theorem leadsToMinus_markup {gap : Text} (hgap : IsGap gap) (h : Begins minus text)
    (other : BinaryOp) (rest : Text) :
    leadsToMinus op (other.markup ++ gap ++ text ++ rest) = (other = op && minus) := by
  obtain ⟨c, tail, rfl, hspace, hbrace, hminus⟩ := h
  by_cases hop : other = op
  · subst hop
    have hskip : (dropEmptyBraces (gap ++ c :: (tail ++ rest))).dropWhile (· = ' ') =
        c :: (tail ++ rest) := by
      have hdrop : dropEmptyBraces (c :: (tail ++ rest)) = c :: (tail ++ rest) := by
        unfold dropEmptyBraces
        split
        · next heq => exact absurd (List.cons.inj heq).1 hbrace
        · rfl
      rcases hgap with rfl | rfl | rfl
      · simp [hdrop, hspace]
      · simp [dropEmptyBraces, hspace]
      · simp [dropEmptyBraces, hspace]
    have hhead : decide ((c :: (tail ++ rest)).head? = some '-') = minus := by
      rw [List.head?_cons, Bool.eq_iff_iff, ← hminus]
      simp
    have hassoc : other.markup ++ gap ++ c :: tail ++ rest =
        other.markup ++ (gap ++ c :: (tail ++ rest)) := by simp
    unfold leadsToMinus
    rw [hassoc, List.drop_left, hskip, hhead,
      List.isPrefixOf_iff_prefix.2 (List.prefix_append _ _)]
    simp
  · have hhead : op.markup.head? ≠ (other.markup ++ gap ++ c :: tail ++ rest).head? := by
      obtain ⟨d, word, hmarkup, -, -⟩ := other.exists_markup_eq
      intro heq
      refine hop (BinaryOp.eq_of_head?_markup ?_)
      rw [heq, hmarkup]
      rfl
    rw [leadsToMinus_of_head?_ne hhead]
    simp [hop]

theorem IsGap.all_startsNoOperator {gap : Text} (h : IsGap gap) :
    gap.all startsNoOperator = true := by
  rcases h with rfl | rfl | rfl <;> decide

/-- The symbol of an operator counts if the operand after it begins with a minus sign. -/
theorem Adds.markup {gap : Text} (hgap : IsGap gap) (other : BinaryOp)
    (hbegins : Begins minus text) (h : Adds op n text) :
    Adds op ((if other = op && minus then 1 else 0) + n) (other.markup ++ gap ++ text) := by
  intro rest
  have hleads := @leadsToMinus_markup op _ _ gap hgap hbegins other rest
  obtain ⟨c, word, hmarkup, -, hword⟩ := other.exists_markup_eq
  have htail := ((adds_zero hword).append (adds_zero hgap.all_startsNoOperator)).append h rest
  rw [hmarkup] at hleads ⊢
  simp only [List.cons_append] at hleads ⊢
  rw [minusesAfter, hleads, htail, Nat.add_zero, Nat.zero_add, Nat.add_assoc]

theorem BinaryOp.exists_separator_eq (other : BinaryOp) (layout : Layout) (right : Text) :
    ∃ space gap, other.separator layout right = space ++ other.markup ++ gap ∧
      space.all startsNoOperator = true ∧ IsGap gap := by
  cases layout with
  | pretty => exact ⟨[' '], [' '], rfl, rfl, .inr (.inl rfl)⟩
  | compact =>
    unfold separator
    dsimp only
    split
    · split
      · exact ⟨[], _, rfl, rfl, .inr (.inr (by decide))⟩
      · exact ⟨[], [], (List.append_nil _).symm, rfl, .inl rfl⟩
    · exact ⟨[], [], (List.append_nil _).symm, rfl, .inl rfl⟩

theorem Adds.separator (other : BinaryOp) (layout : Layout) (hbegins : Begins minus text)
    (h : Adds op n text) :
    Adds op ((if other = op && minus then 1 else 0) + n) (other.separator layout text ++ text) := by
  obtain ⟨space, gap, hseparator, hspace, hgap⟩ := other.exists_separator_eq layout text
  have hadds := (adds_zero hspace).append (h.markup hgap other hbegins)
  rwa [Nat.zero_add, ← List.append_assoc, ← List.append_assoc, ← hseparator] at hadds

/-- A minus sign that is no operation between two operands. -/
theorem Adds.sign (hbegins : Begins false text) (h : Adds op n text) : Adds op n ('-' :: text) := by
  have hadds := h.markup (.inl rfl) .sub hbegins
  rwa [Bool.and_false, if_neg Bool.false_ne_true, Nat.zero_add] at hadds

/-! ## Leaves and calls -/

theorem Decimal.adds_toText (d : Decimal) : Adds op 0 d.toText ∧ Begins false d.toText := by
  constructor
  · refine adds_zero (List.all_eq_true.2 fun c hc => ?_)
    rcases isDigit_or_point c hc with hdigit | rfl
    · exact startsNoOperator_of_isNamePart (isNamePart_of_isDigit hdigit)
    · rfl
  · obtain ⟨c, rest, hcons, hdigit⟩ := d.exists_digit_cons
    rw [hcons]
    exact Begins.of_isNamePart (isNamePart_of_isDigit hdigit) rest

theorem Binary64.exists_adds {v : Binary64} (h : v.isFinite = true) :
    ∃ text, v.render = .ok text ∧ Begins (v.negative && !v.isZero) text ∧
      ∀ op, Adds op 0 text := by
  refine ⟨_, render_of_isFinite h, ?_⟩
  rw [toText_of_isFinite h]
  have hdigits := fun op => @Decimal.adds_toText op (shortest v.code)
  cases v.isZero with
  | true => exact ⟨⟨'0', [], rfl, by decide, by decide, by simp⟩, fun op => adds_zero rfl⟩
  | false =>
    cases v.negative with
    | false => exact ⟨(hdigits .add).2, fun op => (hdigits op).1⟩
    | true =>
      exact ⟨⟨'-', _, rfl, by decide, by decide, by simp⟩,
        fun op => (hdigits op).1.sign (hdigits op).2⟩

theorem Adds.call (f : ElementaryFunction) (h : Adds op n text) :
    Adds op n ('\\' :: f.name ++ '\x7b' :: text ++ ['\x7d']) := by
  have hname : f.name.all startsNoOperator = true := by cases f <;> decide
  have hopening : startsNoOperator '\x7b' = true := rfl
  have hclosing : Adds op 0 ['\x7d'] := adds_zero rfl
  have hbody : Adds op n (f.name ++ '\x7b' :: (text ++ ['\x7d'])) := by
    have hbody := (adds_zero hname).append ((h.append hclosing).cons hopening)
    rwa [Nat.zero_add, Nat.add_zero] at hbody
  intro rest
  have hword :
      leadsToMinus op ('\\' :: (f.name ++ '\x7b' :: (text ++ ['\x7d']) ++ rest)) = false := by
    cases f <;> cases op <;> rfl
  have hassoc : '\\' :: f.name ++ '\x7b' :: text ++ ['\x7d'] ++ rest =
      '\\' :: (f.name ++ '\x7b' :: (text ++ ['\x7d']) ++ rest) := by simp
  rw [hassoc, minusesAfter, hword, if_neg Bool.false_ne_true, Nat.zero_add, hbody]

/-! ## Expressions -/

namespace Expr

theorem opensWithMinus_of_atom {x : Expr} (h : negationPrecedence < x.precedence) :
    x.opensWithMinus = false := by
  cases x with
  | number v =>
    rw [opensWithMinus]
    rw [precedence] at h
    split at h
    · exact absurd h (Nat.lt_irrefl _)
    · next hv => simpa using hv
  | ident name => rfl
  | neg x => exact absurd h (Nat.lt_irrefl _)
  | binary op x y =>
    rw [precedence] at h
    cases op <;> exact absurd h (by decide)
  | call name arguments => rfl

/-- The operand of a negation gets parentheses if it begins with a minus sign. -/
theorem begins_negated {x : Expr} {markup : Text} (h : Begins x.opensWithMinus markup) :
    Begins false (parenthesizeIf (x.precedence ≤ negationPrecedence) markup) := by
  have hwrapped := h.parenthesizeIf (x.precedence ≤ negationPrecedence)
  by_cases hatom : x.precedence ≤ negationPrecedence
  · simpa [hatom] using hwrapped
  · simpa [opensWithMinus_of_atom (Nat.lt_of_not_le hatom)] using hwrapped

/-- What the text of a well-formed expression begins with, and how often it has the symbol of an
operation in front of a minus sign. -/
theorem exists_adds (layout : Layout) {x : Expr} (h : x.isWellFormed = true) :
    ∃ markup, x.render layout = .ok markup ∧ Begins x.opensWithMinus markup ∧
      ∀ op, Adds op (x.subtrees.countP (exposesMinus op)) markup := by
  induction x with
  | number v => exact Binary64.exists_adds (isWellFormed_number ▸ h)
  | ident name =>
    rw [isWellFormed_ident] at h
    have hplain : name.all startsNoOperator = true := List.all_eq_true.2 fun c hc =>
      startsNoOperator_of_isNamePart (isNamePart_of_isName h c hc)
    refine ⟨name, render_ident_of_isName h, ?_, fun op => adds_zero hplain⟩
    obtain ⟨c, rest, rfl⟩ := List.exists_cons_of_ne_nil (ne_nil_of_isName h)
    exact Begins.of_isNamePart (isNamePart_of_isName h c List.mem_cons_self) rest
  | neg x ih =>
    obtain ⟨markup, hrender, hbegins, hadds⟩ := ih (isWellFormed_neg.1 h)
    refine ⟨_, render_neg_of_ok hrender,
      ⟨'-', _, rfl, by decide, by decide, by simp [opensWithMinus]⟩, fun op => ?_⟩
    rw [subtrees, List.countP_cons_of_neg (by simp [exposesMinus])]
    exact ((hadds op).parenthesizeIf _).sign (begins_negated hbegins)
  | binary op x y ihx ihy =>
    obtain ⟨hx, hy⟩ := isWellFormed_binary.1 h
    obtain ⟨left, hleft, hbeginsLeft, haddsLeft⟩ := ihx hx
    obtain ⟨right, hright, hbeginsRight, haddsRight⟩ := ihy hy
    refine ⟨_, render_binary_of_ok hleft hright, ?_, fun o => ?_⟩
    · rw [BinaryOp.render, List.append_assoc]
      exact (hbeginsLeft.parenthesizeIf _).append _
    · have hadds := ((haddsLeft o).parenthesizeIf (op.wrapsLeft x)).append
        (((haddsRight o).parenthesizeIf (op.wrapsRight y)).separator op layout
          (hbeginsRight.parenthesizeIf _))
      have hcount : (binary op x y).subtrees.countP (exposesMinus o) =
          x.subtrees.countP (exposesMinus o) +
            ((if op = o && (!op.wrapsRight y && y.opensWithMinus) then 1 else 0) +
              y.subtrees.countP (exposesMinus o)) := by
        rw [subtrees, List.countP_cons, List.countP_append, exposesMinus, Bool.and_assoc]
        omega
      rw [BinaryOp.render, List.append_assoc, hcount]
      exact hadds
  | call name arguments ih =>
    obtain ⟨f, x, rfl, rfl, hx⟩ := isWellFormed_call.1 h
    obtain ⟨markup, hrender, hbegins, hadds⟩ := ih x (List.mem_singleton_self x) hx
    have hname : f.name ≠ [] := by cases f <;> decide
    refine ⟨_, render_call_of_ok hname hrender,
      ⟨'\\', _, rfl, by decide, by decide, by simp [opensWithMinus]⟩, fun op => ?_⟩
    have hcount : (call f.name [x]).subtrees.countP (exposesMinus op) =
        x.subtrees.countP (exposesMinus op) := by
      rw [subtrees, subtreesAll, subtreesAll, List.append_nil,
        List.countP_cons_of_neg (by simp [exposesMinus])]
    rw [hcount]
    exact (hadds op).call f

theorem isWellFormed_of_mem_subtrees {x z : Expr} (hz : z ∈ x.subtrees)
    (h : x.isWellFormed = true) : z.isWellFormed = true := by
  induction x with
  | number v =>
    cases List.mem_singleton.1 hz
    exact h
  | ident name =>
    cases List.mem_singleton.1 hz
    exact h
  | neg x ih =>
    rcases List.mem_cons.1 hz with rfl | hz
    · exact h
    · exact ih hz (isWellFormed_neg.1 h)
  | binary op x y ihx ihy =>
    obtain ⟨hx, hy⟩ := isWellFormed_binary.1 h
    rcases List.mem_cons.1 hz with rfl | hz
    · exact h
    · rcases List.mem_append.1 hz with hz | hz
      · exact ihx hz hx
      · exact ihy hz hy
  | call name arguments ih =>
    rcases List.mem_cons.1 hz with rfl | hz
    · exact h
    · obtain ⟨f, x, -, rfl, hx⟩ := isWellFormed_call.1 h
      obtain ⟨y, hy, hz⟩ := mem_subtreesAll.1 hz
      cases List.mem_singleton.1 hy
      exact ih x hy hz hx

/-- An operand that is a negation, or a number below zero, has parentheses; after a division so has
every operation. -/
theorem exists_binary_of_exposesMinus {op : BinaryOp} {z : Expr} (h : z.exposesMinus op = true) :
    op ≠ .div ∧ ∃ left inner x y, z = binary op left (binary inner x y) := by
  cases z with
  | binary other left right =>
    rw [exposesMinus, Bool.and_eq_true, Bool.and_eq_true, decide_eq_true_eq,
      Bool.not_eq_true'] at h
    obtain ⟨⟨rfl, hwraps⟩, hopens⟩ := h
    cases right with
    | binary inner x y =>
      refine ⟨?_, left, inner, x, y, rfl⟩
      rintro rfl
      cases inner <;> cases hwraps
    | number v =>
      rw [opensWithMinus] at hopens
      simp [BinaryOp.wrapsRight, precedence, hopens] at hwraps
    | neg x => simp [BinaryOp.wrapsRight, precedence] at hwraps
    | ident name => cases hopens
    | call name arguments => cases hopens
  | number v => cases h
  | ident name => cases h
  | neg x => cases h
  | call name arguments => cases h

/-- The symbol of an operation stands in front of a minus sign once for each node of the operation
whose right operand has no parentheses and opens with one, and nowhere else. Such an operand is
itself an operation, and never a divisor; the text of a subtree begins with a minus sign just when
the subtree opens with one; and the minus sign of a negation is never followed by another. -/
theorem minuses_after_operators (layout : Layout) {x : Expr} (h : x.isWellFormed = true) :
    (∃ markup, x.render layout = .ok markup ∧
      ∀ op, minusesAfter op markup = x.subtrees.countP (exposesMinus op)) ∧
    (∀ op, ∀ z ∈ x.subtrees, z.exposesMinus op = true →
      op ≠ .div ∧ ∃ left inner y w, z = binary op left (binary inner y w)) ∧
    (∀ z ∈ x.subtrees, ∃ markup, z.render layout = .ok markup ∧
      (markup.head? = some '-' ↔ z.opensWithMinus = true)) ∧
    ∀ y, neg y ∈ x.subtrees → ∃ operand, (neg y).render layout = .ok ('-' :: operand) ∧
      leadsToMinus .sub ('-' :: operand) = false := by
  refine ⟨?_, fun op z _ => exists_binary_of_exposesMinus, fun z hz => ?_, fun y hy => ?_⟩
  · obtain ⟨markup, hrender, -, hadds⟩ := exists_adds layout h
    refine ⟨markup, hrender, fun op => ?_⟩
    have hcount := hadds op []
    rwa [List.append_nil, minusesAfter, Nat.add_zero] at hcount
  · obtain ⟨markup, hrender, hbegins, -⟩ :=
      exists_adds layout (isWellFormed_of_mem_subtrees hz h)
    exact ⟨markup, hrender, hbegins.head?_iff⟩
  · have hwell := isWellFormed_neg.1 (isWellFormed_of_mem_subtrees hy h)
    obtain ⟨markup, hrender, hbegins, -⟩ := exists_adds layout hwell
    have hleads := @leadsToMinus_markup .sub _ _ [] (.inl rfl) (begins_negated hbegins) .sub []
    rw [List.append_nil, Bool.and_false] at hleads
    exact ⟨_, render_neg_of_ok hrender, hleads⟩

/-- The difference has one, in front of the product; the quotient, and the sum inside of the
parentheses, have none. -/
theorem minuses_after_operators_difference :
    let x : Expr := binary .sub (binary .div (ident ['a']) (neg (ident ['b'])))
      (binary .mul (neg (binary .add (ident ['c']) (number .zero))) (ident ['d']))
    x.isWellFormed = true ∧ x.subtrees.countP (exposesMinus .sub) = 1 ∧
    (∃ markup, x.render .pretty = .ok markup ∧
      ∀ op, minusesAfter op markup = x.subtrees.countP (exposesMinus op)) ∧
    (∀ op, ∀ z ∈ x.subtrees, z.exposesMinus op = true →
      op ≠ .div ∧ ∃ left inner y w, z = binary op left (binary inner y w)) ∧
    (∀ z ∈ x.subtrees, ∃ markup, z.render .pretty = .ok markup ∧
      (markup.head? = some '-' ↔ z.opensWithMinus = true)) ∧
    ∀ y, neg y ∈ x.subtrees → ∃ operand, (neg y).render .pretty = .ok ('-' :: operand) ∧
      leadsToMinus .sub ('-' :: operand) = false := by
  intro x
  have h : x.isWellFormed = true := by decide
  exact ⟨h, by decide, minuses_after_operators .pretty h⟩

/-- An operand of a sum that is a product, and whose left factor is a negation. -/
theorem minus_after_plus :
    let x : Expr := binary .add (ident ['a']) (binary .mul (neg (ident ['b'])) (ident ['c']))
    x.isWellFormed = true ∧ x.render .compact = .ok "a+-b\\cdot\x7b\x7dc".toList ∧
      minusesAfter .add "a+-b\\cdot\x7b\x7dc".toList = 1 := by
  intro x
  exact ⟨by decide, by decide, by decide⟩

end Expr

end MathMarkup
