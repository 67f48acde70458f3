import Mathlib
import MathMarkup.Expr.Subtree
import MathMarkup.Proofs.Fold.Steps
import MathMarkup.Proofs.Parse.Grammar

/-!
# Well-formed expressions

What is read from a text has proper names and known calls of one argument at every depth, and what
is folded keeps this and has finite numbers only.
-/
namespace MathMarkup

namespace Expr

/-! ## Node by node -/

theorem forall_mem_subtrees_neg {p : Expr → Prop} {x : Expr} :
    (∀ z ∈ (neg x).subtrees, p z) ↔ p (neg x) ∧ ∀ z ∈ x.subtrees, p z := by
  simp [subtrees]

theorem forall_mem_subtrees_binary {p : Expr → Prop} {op : BinaryOp} {x y : Expr} :
    (∀ z ∈ (binary op x y).subtrees, p z) ↔
      p (binary op x y) ∧ (∀ z ∈ x.subtrees, p z) ∧ ∀ z ∈ y.subtrees, p z := by
  simp [subtrees, or_imp, forall_and]

theorem forall_mem_subtrees_call {p : Expr → Prop} {name : Text} {arguments : List Expr} :
    (∀ z ∈ (call name arguments).subtrees, p z) ↔
      p (call name arguments) ∧ ∀ x ∈ arguments, ∀ z ∈ x.subtrees, p z := by
  simp only [subtrees, List.mem_cons, mem_subtreesAll, forall_eq_or_imp]
  constructor
  · rintro ⟨hcall, h⟩
    exact ⟨hcall, fun x hx z hz => h z ⟨x, hx, hz⟩⟩
  · rintro ⟨hcall, h⟩
    refine ⟨hcall, ?_⟩
    rintro z ⟨x, hx, hz⟩
    exact h x hx z hz

theorem callsKnown_iff {x : Expr} : x.callsKnown = true ↔ ∀ z ∈ x.subtrees, z.hasKnownCall = true :=
  List.all_eq_true

theorem namesProper_iff {x : Expr} :
    x.namesProper = true ↔ ∀ z ∈ x.subtrees, z.hasProperName = true :=
  List.all_eq_true

theorem numbersFinite_iff {x : Expr} :
    x.numbersFinite = true ↔ ∀ z ∈ x.subtrees, z.hasFiniteValue = true :=
  List.all_eq_true

/-- An expression of the form that reading gives: proper names, known calls of one argument. -/
def IsReadable (x : Expr) : Prop :=
  ∀ z ∈ x.subtrees, z.hasKnownCall = true ∧ z.hasProperName = true

theorem isReadable_iff {x : Expr} :
    x.IsReadable ↔ x.callsKnown = true ∧ x.namesProper = true := by
  rw [callsKnown_iff, namesProper_iff, IsReadable, ← forall₂_and]

theorem isWellFormed_iff {x : Expr} :
    x.isWellFormed = true ↔ x.IsReadable ∧ x.numbersFinite = true := by
  rw [isReadable_iff, isWellFormed, Bool.and_eq_true, Bool.and_eq_true]

/-! ## What folding keeps -/

/-- A property of single nodes that holds of the numbers folding makes, and does not look at the
operands of a node. -/
structure IsKeptByFold (p : Expr → Prop) : Prop where
  literal : ∀ x, IsLiteral x → p x
  neg : ∀ x y, p (neg x) → p (neg y)
  binary : ∀ op x y x' y', p (binary op x y) → p (binary op x' y')
  call : ∀ name xs ys, xs.length = ys.length → p (call name xs) → p (call name ys)

theorem length_foldAll {xs ys : List Expr} (h : foldAll xs = .ok ys) : xs.length = ys.length := by
  induction xs generalizing ys with
  | nil =>
    cases h
    rfl
  | cons x xs ih =>
    obtain ⟨y, zs, -, hzs, rfl⟩ := foldAll_cons_ok h
    simp [ih hzs]

theorem forall_subtrees_isLiteral {p : Expr → Prop} (hp : IsKeptByFold p) {x : Expr}
    (h : IsLiteral x) : ∀ z ∈ x.subtrees, p z := by
  have hx := hp.literal x h
  obtain ⟨hv⟩ := h
  simpa [subtrees] using hx

/-- The numbers of the expression need not have the property: folding replaces them all. -/
theorem forall_subtrees_fold {p : Expr → Prop} (hp : IsKeptByFold p) {x y : Expr}
    (h : x.fold = .ok y) (hx : ∀ z ∈ x.subtrees, (∀ v, z ≠ number v) → p z) :
    ∀ z ∈ y.subtrees, p z := by
  induction x generalizing y with
  | number v => exact forall_subtrees_isLiteral hp (isLiteral_of_literal h)
  | ident name =>
    cases h
    intro z hz
    exact hx z hz (by rintro v rfl; simp [subtrees] at hz)
  | neg x ih =>
    obtain ⟨x', hx', hy⟩ := fold_neg_ok h
    rw [forall_mem_subtrees_neg] at hx
    rcases foldNeg_ok hy with hy | rfl
    · exact forall_subtrees_isLiteral hp hy
    · exact forall_mem_subtrees_neg.2 ⟨hp.neg x x' (hx.1 (by simp)), ih hx' hx.2⟩
  | binary op a b iha ihb =>
    obtain ⟨a', b', ha', hb', hy⟩ := fold_binary_ok h
    rw [forall_mem_subtrees_binary] at hx
    rcases foldBinary_ok hy with hy | rfl
    · exact forall_subtrees_isLiteral hp hy
    · exact forall_mem_subtrees_binary.2
        ⟨hp.binary op a b a' b' (hx.1 (by simp)), iha ha' hx.2.1, ihb hb' hx.2.2⟩
  | call name arguments ih =>
    obtain ⟨xs, hxs, hy⟩ := fold_call_ok h
    rw [forall_mem_subtrees_call] at hx
    rcases foldCall_ok hy with hy | rfl
    · exact forall_subtrees_isLiteral hp hy
    · refine forall_mem_subtrees_call.2
        ⟨hp.call name arguments xs (length_foldAll hxs) (hx.1 (by simp)), fun a' ha' => ?_⟩
      obtain ⟨a, ha, hfold⟩ := exists_of_mem_foldAll hxs a' ha'
      exact ih a ha hfold (hx.2 a ha)

theorem numbersFinite_of_fold {x y : Expr} (h : x.fold = .ok y) : y.numbersFinite = true := by
  have hkept : IsKeptByFold fun z => z.hasFiniteValue = true :=
    ⟨by rintro x ⟨hv⟩; exact isFinite_normalized hv, fun _ _ _ => rfl, fun _ _ _ _ _ _ => rfl,
      fun _ _ _ _ _ => rfl⟩
  refine numbersFinite_iff.2 (forall_subtrees_fold hkept h fun z _ hz => ?_)
  cases z with
  | number v => exact absurd rfl (hz v)
  | _ => rfl

theorem isReadable_of_fold {x y : Expr} (h : x.fold = .ok y) (hx : x.IsReadable) :
    y.IsReadable := by
  have hkept : IsKeptByFold fun z => z.hasKnownCall = true ∧ z.hasProperName = true :=
    ⟨by rintro x ⟨hv⟩; exact ⟨rfl, rfl⟩, fun _ _ h => h, fun _ _ _ _ _ h => h,
      fun name xs ys hlen h => by simpa [hasKnownCall, hasProperName, hlen] using h⟩
  exact forall_subtrees_fold hkept h fun z hz _ => hx z hz

theorem isWellFormed_of_fold {x y : Expr} (h : x.fold = .ok y) (hx : x.IsReadable) :
    y.isWellFormed = true :=
  isWellFormed_iff.2 ⟨isReadable_of_fold h hx, numbersFinite_of_fold h⟩

end Expr

/-! ## What reading gives -/

theorem isName_of_scan {c : Char} {rest after : Text} {name : Text}
    (h : Token.scan c rest = .ok (.ident name, after)) : isName name = true := by
  unfold Token.scan at h
  split at h
  · dsimp only at h
    split at h <;> cases h
  · split at h
    · next hc =>
      cases h
      simp [isName, hc]
    · split at h
      · next token ht =>
        cases h
        unfold Token.ofSymbol? at ht
        split at ht <;> cases ht
      · cases h

theorem isName_of_mem_scanFrom {column : Nat} {text : Text} {tokens : List PlacedToken}
    (h : scanFrom column text = .ok tokens) :
    ∀ name, .ident name ∈ tokens.map PlacedToken.token → isName name = true := by
  fun_induction scanFrom column text generalizing tokens with
  | case1 column =>
    cases h
    simp
  | case2 column c rest hc ih => exact ih h
  | case3 column c rest hc cause hscan => cases h
  | case4 column c rest hc token after hscan e hs ih => cases h
  | case5 column c rest hc token after hscan ts hs ih =>
    cases h
    intro name hname
    rcases List.mem_cons.1 hname with hname | hname
    · have htoken : token = .ident name := hname.symm
      exact isName_of_scan (htoken ▸ hscan)
    · exact ih hs name hname

namespace Grammar

open MathMarkup.Expr

theorem isReadable_binary {op : BinaryOp} {x y : Expr} (hx : x.IsReadable) (hy : y.IsReadable) :
    (binary op x y).IsReadable :=
  forall_mem_subtrees_binary.2 ⟨⟨rfl, rfl⟩, hx, hy⟩

mutual

theorem isReadable_of_isSum {ts : List Token} {x : Expr} :
    IsSum ts x → (∀ name, .ident name ∈ ts → isName name = true) → x.IsReadable
  | .product h, hts => isReadable_of_isProduct h hts
  | .step hs _ hp, hts =>
    isReadable_binary (isReadable_of_isSum hs fun name hn => hts name (by simp [hn]))
      (isReadable_of_isProduct hp fun name hn => hts name (by simp [hn]))

theorem isReadable_of_isProduct {ts : List Token} {x : Expr} :
    IsProduct ts x → (∀ name, .ident name ∈ ts → isName name = true) → x.IsReadable
  | .factor h, hts => isReadable_of_isFactor h hts
  | .step hp _ hf, hts =>
    isReadable_binary (isReadable_of_isProduct hp fun name hn => hts name (by simp [hn]))
      (isReadable_of_isFactor hf fun name hn => hts name (by simp [hn]))

theorem isReadable_of_isFactor {ts : List Token} {x : Expr} :
    IsFactor ts x → (∀ name, .ident name ∈ ts → isName name = true) → x.IsReadable
  | .minus h, hts => forall_mem_subtrees_neg.2 ⟨⟨rfl, rfl⟩,
      isReadable_of_isFactor h fun name hn => hts name (by simp [hn])⟩
  | .plus h, hts => isReadable_of_isFactor h fun name hn => hts name (by simp [hn])
  | .number v, _ => by simp [IsReadable, subtrees, hasKnownCall, hasProperName]
  | .ident name, hts => by
    simpa [IsReadable, subtrees, hasKnownCall, hasProperName] using hts name (by simp)
  | .call f h, hts => by
    refine forall_mem_subtrees_call.2 ⟨⟨by simp [hasKnownCall], rfl⟩, fun x hx => ?_⟩
    cases List.mem_singleton.1 hx
    exact isReadable_of_isSum h fun name hn => hts name (by simp [hn])
  | .group h, hts => isReadable_of_isSum h fun name hn => hts name (by simp [hn])

end

end Grammar

namespace Parse

theorem isReadable_of_side {base : Nat} {text : Text} {x : Expr} (h : side base text = .ok x) :
    x.IsReadable := by
  have hside := h
  unfold side at h
  split at h
  · cases h
  · cases h
  · next tokens _ htokens =>
    have hsum := (side_eq_ok_iff (ofText_of_tokenize htokens)).1 hside
    exact Grammar.isReadable_of_isSum hsum (isName_of_mem_scanFrom htokens)

theorem isReadable_of_sides {base : Nat} {parts : List Text} {xs : List Expr}
    (h : sides base parts = .ok xs) : ∀ x ∈ xs, x.IsReadable := by
  induction parts generalizing base xs with
  | nil =>
    cases h
    simp
  | cons part parts ih =>
    unfold sides at h
    split at h
    · cases h
    · next x hx =>
      split at h
      · cases h
      · next ys hys =>
        cases h
        intro y hy
        rcases List.mem_cons.1 hy with rfl | hy
        · exact isReadable_of_side hx
        · exact ih hys y hy

theorem length_sides {base : Nat} {parts : List Text} {xs : List Expr}
    (h : sides base parts = .ok xs) : xs.length = parts.length := by
  induction parts generalizing base xs with
  | nil =>
    cases h
    rfl
  | cons part parts ih =>
    unfold sides at h
    split at h
    · cases h
    · split at h
      · cases h
      · next ys hys =>
        cases h
        simp [ih hys]

end Parse

/-- An equation that was read has sides, and they are readable. -/
theorem Equation.isReadable_of_parse {text : Text} {equation : Equation}
    (h : parse text = .ok equation) :
    equation.sides ≠ [] ∧ ∀ x ∈ equation.sides, x.IsReadable := by
  unfold parse at h
  split at h
  · cases h
  · next xs hxs =>
    cases h
    refine ⟨?_, Parse.isReadable_of_sides hxs⟩
    rintro rfl
    exact Text.split_ne_nil '=' text (List.length_eq_zero_iff.1 (Parse.length_sides hxs).symm)

end MathMarkup
