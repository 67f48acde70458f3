import MathMarkup.Text.Basic

/-!
# Blank characters

The characters with the Unicode property White_Space, and the removal of those at both ends of a
text.
-/
namespace MathMarkup.Text

/-- The ranges of White_Space, in code point order. -/
def blankRanges : List (Nat × Nat) :=
  [(0x09, 0x0D), (0x20, 0x20), (0x85, 0x85), (0xA0, 0xA0), (0x1680, 0x1680), (0x2000, 0x200A),
    (0x2028, 0x2029), (0x202F, 0x202F), (0x205F, 0x205F), (0x3000, 0x3000)]

def isBlank (c : Char) : Bool :=
  blankRanges.any fun range => range.1 ≤ c.toNat && c.toNat ≤ range.2

def trimLeft (text : Text) : Text := text.dropWhile isBlank

def trimRight (text : Text) : Text := (text.reverse.dropWhile isBlank).reverse

def trim (text : Text) : Text := trimRight (trimLeft text)

end MathMarkup.Text
