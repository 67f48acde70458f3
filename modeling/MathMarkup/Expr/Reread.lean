import MathMarkup.Text.Basic

/-!
# Reading markup back

The text of an expression, out of its markup: control words lose their backslash, the multiplication
sign becomes `*`, and the braces around an argument become parentheses.
-/
namespace MathMarkup.Markup

/-- Takes braces with nothing between them off the head of a text. -/
def dropEmptyBraces : Text → Text
  | '\x7b' :: '\x7d' :: rest => rest
  | text => text

theorem dropEmptyBraces_length_le (text : Text) : (dropEmptyBraces text).length ≤ text.length := by
  fun_cases dropEmptyBraces text with
  | case1 rest => exact Nat.le_add_right rest.length 2
  | case2 => exact Nat.le_refl _

theorem afterWord_length_le (text : Text) : (text.dropWhile Char.isAlpha).length ≤ text.length :=
  (List.dropWhile_sublist _).length_le

/-- Turns markup into the text of an expression. The stack tells for every brace that is open
whether it belongs to a control word. -/
def toInputFrom (stack : List Bool) (markup : Text) : Text :=
  match markup with
  | [] => []
  | '\\' :: rest =>
    let word := rest.takeWhile Char.isAlpha
    let after := rest.dropWhile Char.isAlpha
    if word = "cdot".toList then '*' :: toInputFrom stack (dropEmptyBraces after)
    else if after.head? = some '\x7b' then word ++ '(' :: toInputFrom (true :: stack) after.tail
    else '\\' :: word ++ toInputFrom stack after
  | '\x7b' :: rest => '\x7b' :: toInputFrom (false :: stack) rest
  | '\x7d' :: rest =>
    match stack with
    | true :: stack => ')' :: toInputFrom stack rest
    | false :: stack => '\x7d' :: toInputFrom stack rest
    | [] => '\x7d' :: toInputFrom [] rest
  | c :: rest => c :: toInputFrom stack rest
termination_by markup.length
decreasing_by
  · exact Nat.lt_succ_of_le
      (Nat.le_trans (dropEmptyBraces_length_le _) (afterWord_length_le rest))
  · have := afterWord_length_le rest
    simp only [List.length_tail, List.length_cons]
    omega
  · exact Nat.lt_succ_of_le (afterWord_length_le rest)
  all_goals exact Nat.lt_succ_self _

def toInput (markup : Text) : Text := toInputFrom [] markup

end MathMarkup.Markup
