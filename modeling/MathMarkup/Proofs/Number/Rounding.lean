import Mathlib
import MathMarkup.Number.Shortest

/-!
# The shortest decimal rounds back

Rounding looks at a decimal only as a fraction, and takes the exact magnitude of a finite number to
that number. So whichever grid the shortest decimal is found on, it is read as the number that it
was written for.
-/
namespace MathMarkup

-- the powers that the definitions are about
attribute [local instance (high)] instPowNat

/-! ## Rounding a fraction -/

theorem roundHalfEven_mul {k : Nat} (hk : 0 < k) (n d : Nat) :
    roundHalfEven (n * k) (d * k) = roundHalfEven n d := by
  have hlow : 2 * (n % d * k) < d * k ↔ 2 * (n % d) < d := by
    rw [← Nat.mul_assoc]
    exact Nat.mul_lt_mul_right hk
  have hhigh : d * k < 2 * (n % d * k) ↔ d < 2 * (n % d) := by
    rw [← Nat.mul_assoc]
    exact Nat.mul_lt_mul_right hk
  simp only [roundHalfEven, Nat.mul_div_mul_right n d hk, Nat.mul_mod_mul_right, hlow, hhigh]

theorem roundHalfEven_mul_self {d : Nat} (hd : 0 < d) (q : Nat) : roundHalfEven (q * d) d = q := by
  simp only [roundHalfEven, Nat.mul_div_cancel q hd, Nat.mul_mod_left, Nat.mul_zero, hd, if_true]

namespace Binary64

theorem nearestCode_mul {k : Nat} (hk : 0 < k) (n d : Nat) :
    nearestCode (n * k) (d * k) = nearestCode n d := by
  unfold nearestCode
  -- no power this large may be computed
  generalize 2 ^ (1074 : Nat) = unit
  have hn : n * k * unit = n * unit * k := Nat.mul_right_comm n k unit
  have hd (s : Nat) : d * k * 2 ^ s = d * 2 ^ s * k := Nat.mul_right_comm d k _
  simp only [hn, hd, Nat.mul_div_mul_right _ d hk, roundHalfEven_mul hk]

theorem nearestCode_congr {n d n' d' : Nat} (hd : 0 < d) (hd' : 0 < d') (h : n * d' = n' * d) :
    nearestCode n d = nearestCode n' d' := by
  rw [← nearestCode_mul hd' n d, ← nearestCode_mul hd n' d', h, Nat.mul_comm d d']

theorem nearestCode_five_pow (n k : Nat) :
    nearestCode (n * 5 ^ k) (10 ^ k) = nearestCode n (2 ^ k) := by
  rw [show 10 = 2 * 5 from rfl, Nat.mul_pow, nearestCode_mul (Nat.pow_pos (by decide))]

theorem nearestCode_zero {d : Nat} (hd : 0 < d) : nearestCode 0 d = 0 := by
  have hzero : roundHalfEven 0 d = 0 := by
    have h := roundHalfEven_mul_self hd 0
    rwa [Nat.zero_mul] at h
  have hlog : (0 / d).log2 - 52 = 0 := by simp
  unfold nearestCode
  generalize 2 ^ (1074 : Nat) = unit
  simp only [Nat.zero_mul, hlog, Nat.pow_zero, Nat.mul_one, hzero]

/-! ## Magnitudes of codes -/

theorem significand_bounds {code : Nat} (h : 2 ^ 52 ≤ code) :
    2 ^ 52 ≤ code - scale code * 2 ^ 52 ∧ code - scale code * 2 ^ 52 < 2 ^ 53 := by
  unfold scale
  omega

theorem scale_mul_le (code : Nat) : scale code * 2 ^ 52 ≤ code := by
  unfold scale
  omega

theorem log2_units_sub (code : Nat) : (units code).log2 - 52 = scale code := by
  by_cases h : 2 ^ 52 ≤ code
  · obtain ⟨hlow, hhigh⟩ := significand_bounds h
    have hpos : 0 < 2 ^ scale code := Nat.two_pow_pos _
    have hlog : (units code).log2 = 52 + scale code := by
      unfold units
      rw [Nat.log2_eq_iff (by
        have := Nat.mul_pos (Nat.lt_of_lt_of_le (by decide) hlow) hpos
        omega), Nat.pow_add, Nat.add_right_comm, Nat.pow_add]
      exact ⟨Nat.mul_le_mul_right _ hlow, Nat.mul_lt_mul_of_pos_right hhigh hpos⟩
    omega
  · have hscale : scale code = 0 := by
      unfold scale
      omega
    have hlog : (units code).log2 < 53 := by
      rcases Nat.eq_zero_or_pos code with rfl | hpos
      · decide
      · rw [units, hscale, Nat.log2_lt (by omega)]
        omega
    omega

theorem nearestCode_units (code : Nat) : nearestCode (units code) (2 ^ (1074 : Nat)) = code := by
  have hunit := Nat.two_pow_pos 1074
  unfold nearestCode
  generalize 2 ^ (1074 : Nat) = unit at hunit ⊢
  dsimp only
  rw [Nat.mul_div_cancel _ hunit, log2_units_sub, Nat.mul_comm unit, roundHalfEven_mul hunit,
    units, roundHalfEven_mul_self (Nat.two_pow_pos _)]
  have := scale_mul_le code
  omega

end Binary64

/-! ## Rounding a decimal -/

open Binary64

namespace Decimal

theorem denominator_pos (d : Decimal) : 0 < d.denominator := Nat.pow_pos (by decide)

theorem numerator_neg (n k : Nat) : (⟨n, -(k : Int)⟩ : Decimal).numerator = n := by
  simp [numerator]

theorem denominator_neg (n k : Nat) : (⟨n, -(k : Int)⟩ : Decimal).denominator = 10 ^ k := by
  simp [denominator]

/-- Within these bounds no decimal is cut off before it is divided. -/
theorem roundCode_eq_nearestCode {d : Decimal} (hlow : -1100 ≤ d.exponent)
    (hhigh : d.exponent ≤ 400) : d.roundCode = nearestCode d.numerator d.denominator := by
  unfold roundCode
  split
  · next hzero => rw [numerator, hzero, Nat.zero_mul, nearestCode_zero d.denominator_pos]
  · rw [if_neg (by omega), if_neg (by omega)]

/-- A decimal that rounds to a finite number is a small one, or zero. -/
theorem roundCode_eq_nearestCode_of_lt {d : Decimal} (hlow : -1100 ≤ d.exponent)
    (hfinite : d.roundCode < infinityCode) :
    d.roundCode = nearestCode d.numerator d.denominator := by
  by_cases hzero : d.digits = 0
  · rw [numerator, hzero, Nat.zero_mul, nearestCode_zero d.denominator_pos, roundCode, if_pos hzero]
  · refine roundCode_eq_nearestCode hlow (Int.not_lt.1 fun hhigh => ?_)
    rw [roundCode, if_neg hzero, if_pos hhigh] at hfinite
    exact Nat.lt_irrefl _ hfinite

end Decimal

namespace Binary64

theorem roundCode_of_gridPoint? {code : Nat} {exponent : Int} {d : Decimal}
    (h : gridPoint? code exponent = some d) : d.roundCode = code ∧ d.exponent = exponent := by
  unfold gridPoint? at h
  dsimp only at h
  split at h
  · next hbelow =>
    cases h
    exact ⟨hbelow.1, rfl⟩
  · split at h
    · next habove =>
      cases h
      exact ⟨habove, rfl⟩
    · cases h

theorem roundCode_lastGrid (code : Nat) :
    (⟨units code * 5 ^ (1074 : Nat), -1074⟩ : Decimal).roundCode = code := by
  have hlow : (-1100 : Int) ≤ -((1074 : Nat) : Int) := by decide
  have hhigh : -((1074 : Nat) : Int) ≤ 400 := by decide
  rw [show (-1074 : Int) = -((1074 : Nat) : Int) from rfl,
    Decimal.roundCode_eq_nearestCode hlow hhigh, Decimal.numerator_neg, Decimal.denominator_neg,
    nearestCode_five_pow (units code) 1074, nearestCode_units]

theorem firstPoint_induct {p : Decimal → Prop} {point? : Nat → Option Decimal} {last : Decimal}
    (hlast : p last) (hpoint : ∀ grid d, point? grid = some d → p d) (grid : Nat) :
    p (firstPoint point? last grid) := by
  induction grid with
  | zero => exact hlast
  | succ grid ih =>
    rw [firstPoint]
    split
    · next d hd => exact hpoint grid d hd
    · exact ih

/-- The shortest decimal of a magnitude is read as it. -/
theorem roundCode_shortest (code : Nat) :
    (shortest code).roundCode = code ∧ -1074 ≤ (shortest code).exponent := by
  unfold shortest
  split
  · next hzero =>
    subst hzero
    exact ⟨rfl, by decide⟩
  · unfold shortestFrom
    refine firstPoint_induct (p := fun d => d.roundCode = code ∧ -1074 ≤ d.exponent)
      ⟨roundCode_lastGrid code, Int.le_refl _⟩ (fun grid d hd => ?_) _
    obtain ⟨hcode, hexponent⟩ := roundCode_of_gridPoint? hd
    exact ⟨hcode, by omega⟩

end Binary64

end MathMarkup
