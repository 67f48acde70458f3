import MathMarkup.Text.Blank
import MathMarkup.Text.Hex

/-!
# Bracket sets

Which of the two document markers an export writes around its content. A set is a byte of which
two bits have a meaning; the others are kept.
-/
namespace MathMarkup

structure Brackets where
  bits : UInt8
  deriving DecidableEq

namespace Brackets

def empty : Brackets := ⟨0⟩

/-- The set of the opening marker alone. -/
def opening : Brackets := ⟨1⟩

/-- The set of the closing marker alone. -/
def closing : Brackets := ⟨2⟩

def union (a b : Brackets) : Brackets := ⟨a.bits ||| b.bits⟩

def both : Brackets := opening.union closing

def hasOpening (b : Brackets) : Bool := b.bits &&& 1 ≠ 0

def hasClosing (b : Brackets) : Bool := b.bits &&& 2 ≠ 0

/-! ## The text of a set

The members are joined by bars: names, or numbers to base sixteen. -/

/-- A byte to base sixteen, perhaps with a plus sign. -/
def ofHex? (text : Text) : Option Brackets :=
  let digits : Text :=
    match text with
    | '+' :: rest => rest
    | digits => digits
  match digits.hexValue? with
  | some value => if value < 256 then some ⟨UInt8.ofNat value⟩ else none
  | none => none

def ofMember? (text : Text) : Option Brackets :=
  if text = "BEGIN".toList then some opening
  else if text = "END".toList then some closing
  else
    match text with
    | '0' :: 'x' :: digits => ofHex? digits
    | _ => none

/-- The union of the members written; blanks around them do not count. -/
def ofText? (text : Text) : Option Brackets :=
  if text.trim = [] then some empty
  else ((text.trim.split '|').mapM fun member => ofMember? member.trim).map
    (·.foldl union empty)

end Brackets

end MathMarkup
