import Mathlib
import MathMarkup.Proofs.Parse.Complete
import MathMarkup.Proofs.Scan.Columns

/-!
# The parser accepts exactly the grammar

A side is read as an expression just when the grammar derives its tokens from a sum with that tree,
and a whole equation just when it does so for every side. The rules for sums and products, which
name the operand on their left, are also put as chains: an operand, then any number of operators
with an operand each, joined from the left.
-/
namespace MathMarkup

namespace Grammar

/-! ## Chains of operands -/

/-- An operator with the operand after it. -/
structure Link where
  op : BinaryOp
  tokens : List Token
  tree : Expr

namespace Link

def spelled (link : Link) : List Token := .operator link.op :: link.tokens

def join (left : Expr) (link : Link) : Expr := .binary link.op left link.tree

end Link

/-- An operand, then operators of one strength with an operand each; the tree grows to the left. -/
def IsChain (precedence : Nat) (operand : List Token → Expr → Prop) (ts : List Token)
    (x : Expr) : Prop :=
  ∃ (us : List Token) (y : Expr) (links : List Link), operand us y ∧
    (∀ link ∈ links, link.op.precedence = precedence ∧ operand link.tokens link.tree) ∧
    ts = us ++ links.flatMap Link.spelled ∧ x = links.foldl Link.join y

theorem isChain_snoc {precedence : Nat} {operand : List Token → Expr → Prop} {ts us : List Token}
    {x y : Expr} {op : BinaryOp} (h : IsChain precedence operand ts x)
    (hop : op.precedence = precedence) (hy : operand us y) :
    IsChain precedence operand (ts ++ .operator op :: us) (.binary op x y) := by
  obtain ⟨vs, z, links, hz, hlinks, rfl, rfl⟩ := h
  refine ⟨vs, z, links ++ [⟨op, us, y⟩], hz, ?_, ?_, ?_⟩
  · intro link hlink
    rcases List.mem_append.1 hlink with hlink | hlink
    · exact hlinks link hlink
    · cases List.mem_singleton.1 hlink
      exact ⟨hop, hy⟩
  · simp [Link.spelled]
  · simp [Link.join]

theorem isChain_of_isSum {ts : List Token} {x : Expr} : IsSum ts x → IsChain 1 IsProduct ts x
  | .product h => ⟨ts, x, [], h, nofun, by simp, rfl⟩
  | .step hs hop hp => isChain_snoc (isChain_of_isSum hs) hop hp

theorem isChain_of_isProduct {ts : List Token} {x : Expr} :
    IsProduct ts x → IsChain 2 IsFactor ts x
  | .factor h => ⟨ts, x, [], h, nofun, by simp, rfl⟩
  | .step hp hop hf => isChain_snoc (isChain_of_isProduct hp) hop hf

/-- A relation that chains can be built in, link by link, holds of every chain. -/
theorem of_isChain {precedence : Nat} {operand whole : List Token → Expr → Prop}
    (hoperand : ∀ ts x, operand ts x → whole ts x)
    (hstep : ∀ ts us x y op, whole ts x → op.precedence = precedence → operand us y →
      whole (ts ++ .operator op :: us) (.binary op x y))
    {ts : List Token} {x : Expr} (h : IsChain precedence operand ts x) : whole ts x := by
  obtain ⟨us, y, links, hy, hlinks, rfl, rfl⟩ := h
  have hwhole := hoperand us y hy
  clear hy
  induction links generalizing us y with
  | nil => simpa using hwhole
  | cons link links ih =>
    have hlink := hlinks link List.mem_cons_self
    have hnext := hstep us link.tokens y link.tree link.op hwhole hlink.1 hlink.2
    have := ih _ _ (fun l hl => hlinks l (List.mem_cons_of_mem link hl)) hnext
    simpa [Link.spelled, Link.join] using this

theorem isSum_iff_isChain {ts : List Token} {x : Expr} :
    IsSum ts x ↔ IsChain 1 IsProduct ts x :=
  ⟨isChain_of_isSum, of_isChain (fun _ _ h => .product h) fun _ _ _ _ _ h hop hy => .step h hop hy⟩

theorem isProduct_iff_isChain {ts : List Token} {x : Expr} :
    IsProduct ts x ↔ IsChain 2 IsFactor ts x :=
  ⟨isChain_of_isProduct,
    of_isChain (fun _ _ h => .factor h) fun _ _ _ _ _ h hop hy => .step h hop hy⟩

end Grammar

namespace Parse

open Grammar

theorem ofTokens_eq_ok_iff {endColumn : Nat} {tokens : List PlacedToken} {x : Expr} :
    ofTokens endColumn tokens = .ok x ↔ IsSum (kinds tokens) x := by
  rw [ofTokens_eq, bind_eq_ok]
  constructor
  · rintro ⟨⟨y, rest⟩, hy, hend⟩
    obtain ⟨used, rfl, hsum⟩ := finds_readSum endColumn none tokens y rest hy
    cases rest with
    | nil =>
      cases hend
      simpa using hsum
    | cons t rest =>
      dsimp only [readEnd] at hend
      split at hend <;> cases hend
  · intro h
    refine ⟨(x, []), ?_, rfl⟩
    have hread := @readSum_of_isSum endColumn _ _ h tokens [] none rfl endsProduct_nil
    rwa [List.append_nil, readSumTail_nil] at hread

/-- No tokens have two trees. -/
theorem isSum_functional {ts : List Token} {x y : Expr} (hx : IsSum ts x) (hy : IsSum ts y) :
    x = y := by
  have hk : kinds (ts.map fun token => ⟨token, 0⟩) = ts := by simp [kinds, Function.comp_def]
  have hx' := (@ofTokens_eq_ok_iff 0 _ _).2 (hk.symm ▸ hx)
  have hy' := (@ofTokens_eq_ok_iff 0 _ _).2 (hk.symm ▸ hy)
  exact Except.ok.inj (hx'.symm.trans hy')

theorem not_isSum_nil (x : Expr) : ¬ IsSum [] x := by
  intro h
  have hread := (@ofTokens_eq_ok_iff 0 [] x).2 h
  rw [ofTokens_eq, readSum_eq, readProduct_eq, readFactor_nil] at hread
  cases hread

/-! ## Sides and equations -/

theorem side_eq_ok_iff {base : Nat} {text : Text} {ts : List Token} {x : Expr}
    (h : Token.ofText text = .ok ts) : side base text = .ok x ↔ IsSum ts x := by
  obtain ⟨tokens, htokens, rfl⟩ := tokenize_of_ofText base h
  unfold side
  rw [htokens]
  cases tokens with
  | nil =>
    constructor
    · rintro ⟨⟩
    · exact fun hsum => absurd hsum (not_isSum_nil x)
  | cons t tokens => exact ofTokens_eq_ok_iff

theorem sides_eq_ok_iff {base : Nat} {parts : List Text} {kindss : List (List Token)}
    {xs : List Expr} (h : List.Forall₂ (fun part ts => Token.ofText part = .ok ts) parts kindss) :
    sides base parts = .ok xs ↔ List.Forall₂ IsSum kindss xs := by
  induction h generalizing base xs with
  | nil =>
    cases xs with
    | nil => simp [sides]
    | cons x xs => simp [sides]
  | @cons part ts parts kindss hpart hparts ih =>
    unfold sides
    constructor
    · intro hsides
      split at hsides
      · cases hsides
      · next x hx =>
        split at hsides
        · cases hsides
        · next ys hys =>
          cases hsides
          exact .cons ((side_eq_ok_iff hpart).1 hx) (ih.1 hys)
    · rintro (_ | ⟨hx, hxs⟩)
      rw [(side_eq_ok_iff hpart).2 hx]
      dsimp only
      rw [ih.2 hxs]

theorem exists_forall₂ {α β : Type} {relation : α → β → Prop} {as : List α}
    (h : ∀ a ∈ as, ∃ b, relation a b) : ∃ bs, List.Forall₂ relation as bs := by
  induction as with
  | nil => exact ⟨[], .nil⟩
  | cons a as ih =>
    obtain ⟨b, hb⟩ := h a List.mem_cons_self
    obtain ⟨bs, hbs⟩ := ih fun a' ha' => h a' (List.mem_cons_of_mem a ha')
    exact ⟨b :: bs, .cons hb hbs⟩

theorem exists_of_forall₂ {α β : Type} {relation : α → β → Prop} {as : List α} {bs : List β}
    (h : List.Forall₂ relation as bs) : ∀ a ∈ as, ∃ b, relation a b := by
  induction h with
  | nil => simp
  | @cons a b as bs hab _ ih =>
    intro a' ha'
    rcases List.mem_cons.1 ha' with rfl | ha'
    · exact ⟨b, hab⟩
    · exact ih a' ha'

theorem parse_eq_ok_iff {text : Text} {kindss : List (List Token)} {xs : List Expr}
    (h : List.Forall₂ (fun part ts => Token.ofText part = .ok ts) (text.split '=') kindss) :
    Equation.parse text = .ok ⟨xs⟩ ↔ List.Forall₂ IsSum kindss xs := by
  rw [← @sides_eq_ok_iff 0 _ _ _ h]
  unfold Equation.parse
  cases sides 0 (text.split '=') <;> simp

end Parse

open Grammar Parse in
/-- A text whose sides are all made of tokens is an equation just when the grammar derives every
side, and its sides are then the trees of the derivations, one for each. -/
theorem parse_iff_derivable {text : Text} {kindss : List (List Token)}
    (h : List.Forall₂ (fun part ts => Token.ofText part = .ok ts) (text.split '=') kindss) :
    ((∃ equation, Equation.parse text = .ok equation) ↔ ∀ ts ∈ kindss, ∃ x, IsSum ts x) ∧
    (∀ xs, Equation.parse text = .ok ⟨xs⟩ ↔ List.Forall₂ IsSum kindss xs) ∧
    (∀ ts x y, IsSum ts x → IsSum ts y → x = y) ∧
    (∀ ts x, IsSum ts x ↔ IsChain 1 IsProduct ts x) ∧
    (∀ ts x, IsProduct ts x ↔ IsChain 2 IsFactor ts x) := by
  refine ⟨⟨?_, ?_⟩, fun xs => parse_eq_ok_iff h, fun ts x y => isSum_functional,
    fun ts x => isSum_iff_isChain, fun ts x => isProduct_iff_isChain⟩
  · rintro ⟨⟨xs⟩, hparse⟩
    exact exists_of_forall₂ ((parse_eq_ok_iff h).1 hparse)
  · intro hderivable
    obtain ⟨xs, hxs⟩ := exists_forall₂ hderivable
    exact ⟨⟨xs⟩, (parse_eq_ok_iff h).2 hxs⟩

open Grammar in
/-- Quotients are read from the left, and a sign binds more strongly than they do. -/
theorem parse_iff_derivable_quotients :
    let text : Text := "f=-a/sin(b)/0".toList
    let quotients : List Token := [.operator .sub, .ident ['a'], .operator .div,
      .ident "sin".toList, .opening, .ident ['b'], .closing, .operator .div, .number .zero]
    List.Forall₂ (fun part ts => Token.ofText part = .ok ts) (text.split '=')
      [[.ident ['f']], quotients] ∧
    Equation.parse text = .ok ⟨[.ident ['f'], .binary .div (.binary .div (.neg (.ident ['a']))
      (.call "sin".toList [.ident ['b']])) (.number .zero)]⟩ := by
  intro text quotients
  have hsplit : text.split '=' = [['f'], "-a/sin(b)/0".toList] := by decide
  have hleft : Token.ofText ['f'] = .ok [.ident ['f']] := by cbv
  have hright : Token.ofText "-a/sin(b)/0".toList = .ok quotients := by
    dsimp only [quotients]
    cbv
  have htokens : List.Forall₂ (fun part ts => Token.ofText part = .ok ts) (text.split '=')
      [[.ident ['f']], quotients] := hsplit ▸ .cons hleft (.cons hright .nil)
  have hident (name : Text) : IsSum [.ident name] (.ident name) :=
    .product (.factor (.ident name))
  have hquotient : IsProduct ([.operator .sub, .ident ['a']] ++ .operator .div ::
      (.ident ElementaryFunction.sin.name :: .opening :: [.ident ['b']] ++ [.closing])) _ :=
    .step (.factor (.minus (.ident ['a']))) rfl (.call .sin (hident ['b']))
  have hquotients : IsSum quotients _ := .product (.step hquotient rfl (.number .zero))
  exact ⟨htokens, ((parse_iff_derivable htokens).2.1 _).2 (.cons (hident ['f'])
    (.cons hquotients .nil))⟩

end MathMarkup
