import MathMarkup.Expr.Function
import MathMarkup.Expr.Token

/-!
# The grammar of expressions

What a sequence of tokens means, as rules that say nothing about how it is read. `IsSum tokens x`
holds if the grammar derives the tokens from a sum whose tree is `x`:

    sum     := product | sum ('+' | '-') product
    product := factor | product ('*' | '/') factor
    factor  := ('-' | '+') factor | NUMBER | NAME | NAME '(' sum ')' | '(' sum ')'
-/
namespace MathMarkup.Grammar

open Token

mutual

inductive IsSum : List Token → Expr → Prop
  | product {ts : List Token} {x : Expr} : IsProduct ts x → IsSum ts x
  | step {ts us : List Token} {x y : Expr} {op : BinaryOp} : IsSum ts x → op.precedence = 1 →
      IsProduct us y → IsSum (ts ++ operator op :: us) (.binary op x y)

inductive IsProduct : List Token → Expr → Prop
  | factor {ts : List Token} {x : Expr} : IsFactor ts x → IsProduct ts x
  | step {ts us : List Token} {x y : Expr} {op : BinaryOp} : IsProduct ts x → op.precedence = 2 →
      IsFactor us y → IsProduct (ts ++ operator op :: us) (.binary op x y)

inductive IsFactor : List Token → Expr → Prop
  | minus {ts : List Token} {x : Expr} : IsFactor ts x → IsFactor (operator .sub :: ts) (.neg x)
  | plus {ts : List Token} {x : Expr} : IsFactor ts x → IsFactor (operator .add :: ts) x
  | number (v : Binary64) : IsFactor [number v] (.number v)
  | ident (name : Text) : IsFactor [ident name] (.ident name)
  | call (f : ElementaryFunction) {ts : List Token} {x : Expr} : IsSum ts x →
      IsFactor (ident f.name :: opening :: ts ++ [closing]) (.call f.name [x])
  | group {ts : List Token} {x : Expr} : IsSum ts x → IsFactor (opening :: ts ++ [closing]) x

end

end MathMarkup.Grammar
