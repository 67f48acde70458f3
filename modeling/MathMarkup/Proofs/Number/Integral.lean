import Mathlib
import MathMarkup.Proofs.Number.Text

/-!
# Which numbers are written without a point

The units of a whole number are a multiple of the units of one. So the search for its shortest
decimal, which goes from coarse grids to fine ones, ends at the grid of the whole numbers at the
latest. Conversely a whole number rounds to a whole number, as those that are too large for a place
behind the point to be kept are multiples of a power of two.
-/
namespace MathMarkup

-- the powers that the definitions are about
attribute [local instance (high)] instPowNat

namespace Binary64

/-! ## Whole numbers have no fraction -/

theorem units_eq_zero_iff {code : Nat} : units code = 0 ↔ code = 0 := by
  constructor
  · intro h
    have hcode := nearestCode_units code
    rw [h, nearestCode_zero (Nat.two_pow_pos 1074)] at hcode
    exact hcode.symm
  · rintro rfl
    decide

theorem roundCode_natCast {n : Nat} : (⟨n, 0⟩ : Decimal).roundCode = nearestCode n 1 := by
  have hlow : -1100 ≤ (⟨n, 0⟩ : Decimal).exponent := show (-1100 : Int) ≤ 0 by decide
  have hhigh : (⟨n, 0⟩ : Decimal).exponent ≤ 400 := show (0 : Int) ≤ 400 by decide
  rw [Decimal.roundCode_eq_nearestCode hlow hhigh]
  simp [Decimal.numerator, Decimal.denominator]

theorem gridPoint?_of_dvd {code : Nat} (h : 2 ^ (1074 : Nat) ∣ units code) :
    ∃ d, gridPoint? code 0 = some d := by
  have hunit := Nat.two_pow_pos 1074
  have hnearest := nearestCode_units code
  obtain ⟨q, hq⟩ := h
  have hround : (⟨q, 0⟩ : Decimal).roundCode = code := by
    have hcross : q * 2 ^ (1074 : Nat) = units code * 1 := by
      rw [Nat.mul_comm q, ← hq, Nat.mul_one]
    rw [roundCode_natCast, nearestCode_congr Nat.one_pos hunit hcross, hnearest]
  refine ⟨⟨q, 0⟩, ?_⟩
  unfold gridPoint?
  generalize 2 ^ (1074 : Nat) = unit at hq hunit
  simp [hq, hunit, hround]

theorem firstPoint_of_some (point? : Nat → Option Decimal) {last d : Decimal} {grid top : Nat}
    (hgrid : grid < top) (h : point? grid = some d) :
    ∃ found, grid ≤ found ∧ point? found = some (firstPoint point? last top) := by
  induction top with
  | zero => exact absurd hgrid (Nat.not_lt_zero grid)
  | succ top ih =>
    rw [firstPoint]
    split
    · next other hother => exact ⟨top, Nat.le_of_lt_succ hgrid, hother⟩
    · next hnone =>
      refine ih (Nat.lt_of_le_of_ne (Nat.le_of_lt_succ hgrid) ?_)
      rintro rfl
      cases h.symm.trans hnone

theorem exponent_shortest_of_dvd {code : Nat} (h : 2 ^ (1074 : Nat) ∣ units code) :
    0 ≤ (shortest code).exponent := by
  unfold shortest
  split
  · exact Int.le_refl 0
  · next hcode =>
    have hunits : units code ≠ 0 := mt units_eq_zero_iff.1 hcode
    have hlog : 1074 ≤ (units code).log2 :=
      (Nat.le_log2 hunits).2 (Nat.le_of_dvd (Nat.pos_of_ne_zero hunits) h)
    have htop : 1073 < topGrid code := by
      unfold topGrid
      omega
    obtain ⟨d, hd⟩ := gridPoint?_of_dvd h
    have hpoint : gridPoint? code ((1073 : Nat) + 1 - 1074) = some d := hd
    obtain ⟨grid, hgrid, hfound⟩ := firstPoint_of_some
      (fun grid => gridPoint? code (grid + 1 - 1074)) htop hpoint
    have hexponent := (roundCode_of_gridPoint? hfound).2
    rw [shortestFrom, hexponent]
    omega

/-! ## Whole numbers round to whole numbers -/

theorem units_add {s m : Nat} (hlow : 2 ^ 52 ≤ m) (hhigh : m ≤ 2 ^ 53) :
    units (s * 2 ^ 52 + m) = m * 2 ^ s := by
  rcases Nat.lt_or_eq_of_le hhigh with hlt | rfl
  · have hscale : scale (s * 2 ^ 52 + m) = s := by
      unfold scale
      omega
    rw [units, hscale, Nat.add_sub_cancel_left]
  · have hscale : scale (s * 2 ^ 52 + 2 ^ 53) = s + 1 := by
      unfold scale
      omega
    have hrest : s * 2 ^ 52 + 2 ^ 53 - (s + 1) * 2 ^ 52 = 2 ^ 52 := by omega
    rw [units, hscale, hrest, Nat.pow_succ]
    omega

end Binary64

theorem roundHalfEven_bounds (n d : Nat) :
    n / d ≤ roundHalfEven n d ∧ roundHalfEven n d ≤ n / d + 1 := by
  unfold roundHalfEven
  dsimp only
  split
  · omega
  · split <;> omega

namespace Binary64

/-- A magnitude that is not tiny is rounded to a multiple of its last place. -/
theorem units_nearestCode {n N s : Nat} (hN : N = n * 2 ^ (1074 : Nat)) (hlog : N.log2 = s + 52) :
    units (nearestCode n 1) = roundHalfEven N (2 ^ s) * 2 ^ s := by
  have hpos : 0 < 2 ^ s := Nat.two_pow_pos s
  have hne : N ≠ 0 := by
    rintro rfl
    simp at hlog
  have hlow : 2 ^ 52 ≤ N / 2 ^ s := by
    rw [Nat.le_div_iff_mul_le hpos, ← Nat.pow_add, Nat.add_comm, ← hlog]
    exact Nat.log2_self_le hne
  have hhigh : N / 2 ^ s < 2 ^ 53 := by
    have hshift : 53 + s = N.log2 + 1 := by omega
    rw [Nat.div_lt_iff_lt_mul hpos, ← Nat.pow_add, hshift]
    exact Nat.lt_log2_self
  have hbounds := roundHalfEven_bounds N (2 ^ s)
  have hcode : nearestCode n 1 = s * 2 ^ 52 + roundHalfEven N (2 ^ s) := by
    unfold nearestCode
    dsimp only
    rw [← hN, Nat.div_one, hlog, Nat.add_sub_cancel, Nat.one_mul]
  rw [hcode, units_add (by omega) (by omega)]

theorem dvd_units_nearestCode (n : Nat) : 2 ^ (1074 : Nat) ∣ units (nearestCode n 1) := by
  rcases Nat.eq_zero_or_pos n with rfl | hn
  · rw [nearestCode_zero Nat.one_pos, units_eq_zero_iff.2 rfl]
    exact Nat.dvd_zero _
  · obtain ⟨N, hN⟩ : ∃ N, N = n * 2 ^ (1074 : Nat) := ⟨_, rfl⟩
    have hdvd : 2 ^ (1074 : Nat) ∣ N := hN ▸ Nat.dvd_mul_left _ n
    have hpos : 0 < N := by
      rw [hN]
      exact Nat.mul_pos hn (Nat.two_pow_pos 1074)
    have hlog : 1074 ≤ N.log2 := (Nat.le_log2 (Nat.ne_of_gt hpos)).2 (Nat.le_of_dvd hpos hdvd)
    obtain ⟨s, hs⟩ : ∃ s, N.log2 = s + 52 := ⟨N.log2 - 52, by omega⟩
    rw [units_nearestCode hN hs]
    rcases Nat.le_total 1074 s with hlarge | hsmall
    · exact Nat.dvd_mul_left_of_dvd (Nat.pow_dvd_pow 2 hlarge) _
    · obtain ⟨q, hq⟩ := Nat.dvd_trans (Nat.pow_dvd_pow 2 hsmall) hdvd
      have hexact : roundHalfEven N (2 ^ s) = q := by
        rw [hq, Nat.mul_comm, roundHalfEven_mul_self (Nat.two_pow_pos s)]
      rw [hexact, Nat.mul_comm, ← hq]
      exact hdvd

/-! ## Written without a point -/

theorem fraction_eq_nil_iff {code : Nat} {whole fraction : Text} (hcode : code < infinityCode)
    (h : (shortest code).IsWritten whole fraction) :
    fraction = [] ↔ 2 ^ (1074 : Nat) ∣ units code := by
  constructor
  · rintro rfl
    have hdecimal : (⟨whole, [], none⟩ : Numeral).toDecimal =
        ⟨Nat.ofDigitChars 10 (whole ++ []) 0, 0⟩ := rfl
    have hround := round_of_isWritten hcode h
    rw [hdecimal, Decimal.round, ofCode, roundCode_natCast] at hround
    have hread : nearestCode (Nat.ofDigitChars 10 (whole ++ []) 0) 1 = code := by
      dsimp only at hround
      omega
    rw [← hread]
    exact dvd_units_nearestCode _
  · intro hdvd
    have hexponent := exponent_shortest_of_dvd hdvd
    have hlength := h.length_fraction
    rw [← List.length_eq_zero_iff]
    omega

/-! ## Values -/

/-- The value of a finite number, which both zeros share. -/
def toRat (v : Binary64) : ℚ := (if v.negative then -1 else 1) * (units v.code / 2 ^ 1074)

section

variable {v w : Binary64}

theorem toRat_lt_zero_iff : v.toRat < 0 ↔ v.negative = true ∧ v.isZero = false := by
  have hunit : (0 : ℚ) < 2 ^ 1074 := by positivity
  have hpos : v.code ≠ 0 → (0 : ℚ) < units v.code / 2 ^ 1074 := by
    intro hcode
    have hunits : 0 < units v.code := Nat.pos_of_ne_zero (mt units_eq_zero_iff.1 hcode)
    exact div_pos (by exact_mod_cast hunits) hunit
  unfold toRat isZero
  by_cases hcode : v.code = 0
  · simp [hcode, units_eq_zero_iff.2 rfl]
  · cases v.negative with
    | false => simpa [hcode] using (hpos hcode).le
    | true => simpa [hcode] using hpos hcode

theorem exists_intCast_iff : (∃ n : ℤ, v.toRat = n) ↔ 2 ^ (1074 : Nat) ∣ units v.code := by
  have hcast (k : Nat) : ((2 ^ k : Nat) : ℚ) = 2 ^ k := Nat.cast_pow 2 k
  have hunit := hcast 1074
  have hpos : (2 : ℚ) ^ 1074 ≠ 0 := by positivity
  have hsign : (∃ n : ℤ, v.toRat = n) ↔ ∃ n : ℤ, (units v.code : ℚ) / 2 ^ 1074 = n := by
    unfold toRat
    cases v.negative with
    | false => simp
    | true =>
      constructor
      · rintro ⟨n, hn⟩
        exact ⟨-n, by rw [Int.cast_neg, ← hn]; simp⟩
      · rintro ⟨n, hn⟩
        exact ⟨-n, by rw [hn]; simp⟩
  rw [hsign]
  -- no power this large may be computed
  generalize 2 ^ (1074 : Nat) = unit at hunit ⊢
  constructor
  · rintro ⟨n, hn⟩
    rw [div_eq_iff hpos, ← hunit] at hn
    have hmultiple : (units v.code : ℤ) = n * unit := by exact_mod_cast hn
    exact Int.natCast_dvd_natCast.1 ⟨n, hmultiple.trans (mul_comm _ _)⟩
  · rintro ⟨q, hq⟩
    refine ⟨q, ?_⟩
    rw [div_eq_iff hpos, ← hunit, hq, Nat.cast_mul, mul_comm, Int.cast_natCast]

/-- Numbers of the same magnitude are equal if both are below zero or neither is. -/
theorem toRat_congr (habs : v.abs = w.abs) (hsign : v.toRat < 0 ↔ w.toRat < 0) :
    v.toRat = w.toRat := by
  have hcode : v.code = w.code := (congrArg code habs : v.abs.code = w.abs.code)
  rw [toRat_lt_zero_iff, toRat_lt_zero_iff, isZero, isZero, hcode] at hsign
  unfold toRat
  rw [hcode]
  by_cases hzero : w.code = 0
  · simp [hzero, units_eq_zero_iff.2 rfl]
  · have hnegative : v.negative = w.negative := by simpa [hzero] using hsign
    rw [hnegative]

end

end Binary64

end MathMarkup
