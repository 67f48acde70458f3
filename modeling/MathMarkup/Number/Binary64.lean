/-!
# Binary64 numbers

A number is a sign and the code of its magnitude: the 63 bits below the sign bit, read as a
natural number. Codes are ordered like the magnitudes they stand for, and every finite magnitude
is a whole multiple of the smallest one, 2⁻¹⁰⁷⁴, so that exact questions about numbers are
questions about natural numbers.
-/
namespace MathMarkup

-- powers of natural numbers are the core library's, whatever else is imported
attribute [local instance (high)] instPowNat

/-- A binary64 number; codes above `infinityCode` are the ones that are not a number. -/
structure Binary64 where
  negative : Bool
  code : Nat
  code_lt : code < 2 ^ (63 : Nat)
  deriving DecidableEq

namespace Binary64

/-- The code of an infinite magnitude; the finite magnitudes have the codes below it. -/
def infinityCode : Nat := 2047 * 2 ^ (52 : Nat)

def zero : Binary64 := ⟨false, 0, by decide⟩

instance : Inhabited Binary64 := ⟨zero⟩

def infinity (negative : Bool) : Binary64 := ⟨negative, infinityCode, by decide⟩

def notANumber : Binary64 := ⟨false, infinityCode + 2 ^ (51 : Nat), by decide⟩

/-- The number of a code at most `infinityCode`; larger codes are cut down to it. -/
def ofCode (negative : Bool) (code : Nat) : Binary64 :=
  ⟨negative, min code infinityCode,
    Nat.lt_of_le_of_lt (Nat.min_le_right code infinityCode) (by decide)⟩

def isFinite (x : Binary64) : Bool := x.code < infinityCode

def isInfinite (x : Binary64) : Bool := x.code = infinityCode

/-- Both zeros are zero. -/
def isZero (x : Binary64) : Bool := x.code = 0

def neg (x : Binary64) : Binary64 := { x with negative := !x.negative }

def abs (x : Binary64) : Binary64 := { x with negative := false }

/-! ## Magnitudes as natural numbers -/

/-- How often a magnitude's last place is doubled from 2⁻¹⁰⁷⁴. -/
def scale (code : Nat) : Nat := code / 2 ^ (52 : Nat) - 1

/-- The magnitude of a finite code, counted in units of 2⁻¹⁰⁷⁴. -/
def units (code : Nat) : Nat := (code - scale code * 2 ^ (52 : Nat)) * 2 ^ scale code

/-! ## Bit patterns and arithmetic -/

def toBits (x : Binary64) : UInt64 :=
  UInt64.ofNat (x.code + if x.negative then 2 ^ (63 : Nat) else 0)

def ofBits (bits : UInt64) : Binary64 :=
  ⟨2 ^ (63 : Nat) ≤ bits.toNat, bits.toNat % 2 ^ (63 : Nat), Nat.mod_lt _ (by decide)⟩

def toFloat (x : Binary64) : Float := Float.ofBits x.toBits

def ofFloat (x : Float) : Binary64 := ofBits x.toBits

def add (x y : Binary64) : Binary64 := ofFloat (x.toFloat + y.toFloat)

def sub (x y : Binary64) : Binary64 := ofFloat (x.toFloat - y.toFloat)

def mul (x y : Binary64) : Binary64 := ofFloat (x.toFloat * y.toFloat)

def div (x y : Binary64) : Binary64 := ofFloat (x.toFloat / y.toFloat)

/-- Lifts a function of machine floats. -/
def lift (f : Float → Float) (x : Binary64) : Binary64 := ofFloat (f x.toFloat)

/-! ## Laws of the sign and of bit patterns -/

@[simp]
theorem neg_neg (x : Binary64) : x.neg.neg = x := by
  simp [neg]

@[simp]
theorem isFinite_neg (x : Binary64) : x.neg.isFinite = x.isFinite := rfl

@[simp]
theorem isZero_neg (x : Binary64) : x.neg.isZero = x.isZero := rfl

theorem toBits_ofBits (bits : UInt64) : (ofBits bits).toBits = bits := by
  have hbits := bits.toNat_lt
  have hsplit : bits.toNat % 2 ^ (63 : Nat) +
      (if 2 ^ (63 : Nat) ≤ bits.toNat then 2 ^ (63 : Nat) else 0) = bits.toNat := by
    split <;> omega
  simp only [toBits, ofBits, decide_eq_true_eq, hsplit, UInt64.ofNat_toNat]

end Binary64

end MathMarkup
