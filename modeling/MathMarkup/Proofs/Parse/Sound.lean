import Mathlib
import MathMarkup.Expr.Grammar
import MathMarkup.Proofs.Parse.Reader

/-!
# Reading gives derivations

Every expression that a reader returns is the tree of a derivation of the tokens it used.
-/
namespace MathMarkup.Parse

open Grammar

/-- The tokens without their columns. -/
def kinds (tokens : List PlacedToken) : List Token := tokens.map PlacedToken.token

@[simp]
theorem kinds_append (ts us : List PlacedToken) : kinds (ts ++ us) = kinds ts ++ kinds us :=
  List.map_append

theorem additive?_eq_some {token : Token} {op : BinaryOp} (h : additive? token = some op) :
    token = .operator op ∧ op.precedence = 1 := by
  unfold additive? at h
  split at h <;> cases h <;> exact ⟨rfl, rfl⟩

theorem multiplicative?_eq_some {token : Token} {op : BinaryOp}
    (h : multiplicative? token = some op) : token = .operator op ∧ op.precedence = 2 := by
  unfold multiplicative? at h
  split at h <;> cases h <;> exact ⟨rfl, rfl⟩

/-- Whatever a reading finds, the tokens it used and the expression are in a relation. -/
def Finds (relation : List Token → Expr → Prop) (tokens : List PlacedToken) (r : Reading) : Prop :=
  ∀ x rest, r = .ok (x, rest) → ∃ used, tokens = used ++ rest ∧ relation (kinds used) x

theorem finds_failAt {relation : List Token → Expr → Prop} {tokens : List PlacedToken}
    {cause : ParseError.Cause} {column : Nat} : Finds relation tokens (failAt cause column) := by
  rintro x rest ⟨⟩

theorem Finds.of_eq {relation : List Token → Expr → Prop} {tokens : List PlacedToken}
    {r r' : Reading} (h : r = r') (hr : Finds relation tokens r') : Finds relation tokens r :=
  h ▸ hr

theorem Finds.cons {relation relation' : List Token → Expr → Prop} {t : PlacedToken}
    {tokens : List PlacedToken} {r : Reading} (h : Finds relation tokens r)
    (hcons : ∀ ts x, relation ts x → relation' (t.token :: ts) x) :
    Finds relation' (t :: tokens) r := by
  intro x rest hr
  obtain ⟨used, rfl, hx⟩ := h x rest hr
  exact ⟨t :: used, rfl, hcons _ x hx⟩

theorem Finds.map {relation relation' : List Token → Expr → Prop} {tokens : List PlacedToken}
    {r : Reading} {f : Expr → Expr} (h : Finds relation tokens r)
    (hf : ∀ ts x, relation ts x → relation' ts (f x)) :
    Finds relation' tokens (r.map fun found => (f found.1, found.2)) := by
  intro x rest hr
  obtain ⟨⟨y, more⟩, hy, hfound⟩ := map_eq_ok.1 hr
  cases hfound
  obtain ⟨used, rfl, hx⟩ := h y more hy
  exact ⟨used, rfl, hf _ y hx⟩

theorem Finds.bind {first relation : List Token → Expr → Prop} {tokens : List PlacedToken}
    {r : Reading} {f : Expr × List PlacedToken → Reading} (h : Finds first tokens r)
    (hf : ∀ ts x rest, r = .ok (x, rest) → first ts x →
      Finds (fun us y => relation (ts ++ us) y) rest (f (x, rest))) :
    Finds relation tokens (r.bind f) := by
  intro y rest hr
  obtain ⟨⟨x, middle⟩, hx, hy⟩ := bind_eq_ok.1 hr
  obtain ⟨used, rfl, hfirst⟩ := h x middle hx
  obtain ⟨more, rfl, hrelation⟩ := hf (kinds used) x middle hx hfirst y rest hy
  exact ⟨used ++ more, by rw [List.append_assoc], by rwa [kinds_append]⟩

/-- A sum with the closing parenthesis after it. -/
def IsGroup (ts : List Token) (x : Expr) : Prop := ∃ us, ts = us ++ [.closing] ∧ IsSum us x

/-- What each reader finds: the readers of a whole find derivations of it, and those that go on
with a whole find what makes a derivation of the part before into a longer one. -/
def soundness (endColumn : Nat) : Motive where
  sum before tokens := Finds IsSum tokens (readSum endColumn before tokens)
  sumTail left tokens := ∀ ts, IsSum ts left →
    Finds (fun us x => IsSum (ts ++ us) x) tokens (readSumTail endColumn left tokens)
  product before tokens := Finds IsProduct tokens (readProduct endColumn before tokens)
  productTail left tokens := ∀ ts, IsProduct ts left →
    Finds (fun us x => IsProduct (ts ++ us) x) tokens (readProductTail endColumn left tokens)
  factor before tokens := Finds IsFactor tokens (readFactor endColumn before tokens)
  group bracket tokens := Finds IsGroup tokens (readGroup endColumn bracket tokens)

theorem finds_stop {relation : List Token → Expr → Prop} {ts : List Token} {x : Expr}
    {tokens : List PlacedToken} (h : relation ts x) :
    Finds (fun us y => relation (ts ++ us) y) tokens (.ok (x, tokens)) := by
  rintro y rest ⟨⟩
  exact ⟨[], rfl, by simpa [kinds] using h⟩

theorem finds_readClosing (openColumn : Nat) {ts : List Token} {x : Expr}
    {tokens : List PlacedToken} (h : IsSum ts x) :
    Finds (fun us y => IsGroup (ts ++ us) y) tokens (readClosing openColumn (x, tokens)) := by
  unfold readClosing
  dsimp only
  split
  · exact finds_failAt
  · next column rest =>
    rintro y rest ⟨⟩
    exact ⟨[⟨.closing, column⟩], rfl, ts, rfl, h⟩
  · exact finds_failAt

theorem soundness_inductive (endColumn : Nat) : (soundness endColumn).Inductive endColumn where
  sum before tokens hproduct htail := by
    refine Finds.of_eq readSum_eq ?_
    exact hproduct.bind fun ts x rest hx hts => htail x rest hx ts (.product hts)
  sumTail_nil left ts hts := by
    rw [readSumTail_nil]
    exact finds_stop hts
  sumTail_stop left t rest hop ts hts := by
    rw [readSumTail_stop hop]
    exact finds_stop hts
  sumTail_step left t rest op hop hproduct htail ts hts := by
    obtain ⟨ht, hprecedence⟩ := additive?_eq_some hop
    rw [readSumTail_step hop]
    refine Finds.cons (Finds.bind hproduct fun us x more hx hus => ?_) fun us x h => h
    have h := htail x more hx _ (.step hts hprecedence hus)
    simpa [ht] using h
  product before tokens hfactor htail := by
    refine Finds.of_eq readProduct_eq ?_
    exact hfactor.bind fun ts x rest hx hts => htail x rest hx ts (.factor hts)
  productTail_nil left ts hts := by
    rw [readProductTail_nil]
    exact finds_stop hts
  productTail_stop left t rest hop ts hts := by
    rw [readProductTail_stop hop]
    exact finds_stop hts
  productTail_step left t rest op hop hfactor htail ts hts := by
    obtain ⟨ht, hprecedence⟩ := multiplicative?_eq_some hop
    rw [readProductTail_step hop]
    refine Finds.cons (Finds.bind hfactor fun us x more hx hus => ?_) fun us x h => h
    have h := htail x more hx _ (.step hts hprecedence hus)
    simpa [ht] using h
  factor_nil before := by
    refine Finds.of_eq readFactor_nil ?_
    unfold missingAtEnd
    split <;> exact finds_failAt
  factor_number before v column rest := by
    refine Finds.of_eq readFactor_number ?_
    rintro x rest ⟨⟩
    exact ⟨[⟨.number v, column⟩], rfl, .number v⟩
  factor_minus before column rest hfactor := by
    refine Finds.of_eq readFactor_minus ?_
    exact Finds.cons (Finds.map hfactor fun ts x => .minus) fun ts x h => h
  factor_plus before column rest hfactor := by
    refine Finds.of_eq readFactor_plus ?_
    exact hfactor.cons fun _ _ h => .plus h
  factor_operator before op column rest hop := by
    refine Finds.of_eq (readFactor_operator hop) ?_
    exact finds_failAt
  factor_closing before column rest := by
    refine Finds.of_eq readFactor_closing ?_
    unfold missingAtClosing
    split <;> exact finds_failAt
  factor_opening before column rest hgroup := by
    refine Finds.of_eq readFactor_opening ?_
    refine Finds.cons hgroup ?_
    rintro _ x ⟨ts, rfl, hts⟩
    exact .group hts
  factor_unknown before name column openColumn rest hf := by
    refine Finds.of_eq (readFactor_unknown hf) ?_
    exact finds_failAt
  factor_call before name column openColumn rest f hf hgroup := by
    refine Finds.of_eq (readFactor_call hf) ?_
    have hcall : ∀ us x, IsGroup us x →
        IsFactor (.ident name :: .opening :: us) (.call name [x]) := by
      rintro _ x ⟨ts, rfl, hts⟩
      rw [← ElementaryFunction.name_of_ofName? hf]
      exact .call f hts
    exact Finds.cons (Finds.cons (Finds.map hgroup hcall) fun _ _ h => h) fun _ _ h => h
  factor_ident before name column rest hend := by
    refine Finds.of_eq (readFactor_ident hend) ?_
    rintro x rest ⟨⟩
    exact ⟨[⟨.ident name, column⟩], rfl, .ident name⟩
  group bracket tokens hsum := by
    refine Finds.of_eq readGroup_eq ?_
    exact Finds.bind hsum fun ts x rest hx hts => finds_readClosing bracket.column hts

theorem finds_readSum (endColumn : Nat) (before : Option PlacedToken)
    (tokens : List PlacedToken) : Finds IsSum tokens (readSum endColumn before tokens) :=
  (soundness_inductive endColumn).read_induct before tokens

theorem finds_readProduct (endColumn : Nat) (before : Option PlacedToken)
    (tokens : List PlacedToken) : Finds IsProduct tokens (readProduct endColumn before tokens) :=
  (soundness_inductive endColumn).read_induct_product before tokens

theorem finds_readFactor (endColumn : Nat) (before : Option PlacedToken)
    (tokens : List PlacedToken) : Finds IsFactor tokens (readFactor endColumn before tokens) :=
  (soundness_inductive endColumn).read_induct_factor before tokens

end MathMarkup.Parse
