import Mathlib.Data.Int.Log
import Mathlib.Tactic

set_option autoImplicit false

/-! # Rounding to floating-point numbers

`nearest f q` is the number of the binary format `f` nearest to `q`, the one with an even mantissa
of two. The exponent has no upper bound: where a format goes over to infinity, `nearest` goes on.
It is off by half a unit in the last place at most (`abs_nearest_sub_le`), so relatively by a power
of two, unless the number is so small that digits are missing (`abs_nearest_sub_le_mul`).
-/

namespace Doubles

/-- A binary format: the number of its digits, and the least exponent of the last one. -/
structure Format where
  digits : Nat
  least : Int
  deriving DecidableEq, Repr

/-- `double`. -/
def binary64 : Format := ⟨53, -1074⟩

/-- The nearest integer, of two the even one. -/
def halfEven (q : ℚ) : Int :=
  if 2 * (q - ⌊q⌋) < 1 ∨ 2 * (q - ⌊q⌋) = 1 ∧ ⌊q⌋ % 2 = 0 then ⌊q⌋ else ⌊q⌋ + 1

/-- The exponent of the last digit. -/
def Format.exponent (f : Format) (q : ℚ) : Int := max (Int.log 2 |q| + 1 - f.digits) f.least

/-- The nearest number of the format. -/
def nearest (f : Format) (q : ℚ) : ℚ := halfEven (q / 2 ^ f.exponent q) * 2 ^ f.exponent q

variable (f : Format) (q : ℚ)

theorem abs_halfEven_sub_le : |(halfEven q : ℚ) - q| ≤ 1 / 2 := by
  have hle : (⌊q⌋ : ℚ) ≤ q := Int.floor_le q
  have hlt : q < ⌊q⌋ + 1 := Int.lt_floor_add_one q
  unfold halfEven
  rw [abs_le]
  split
  · rename_i h
    have hhalf : 2 * (q - ⌊q⌋) ≤ 1 := by
      rcases h with h | h
      · exact h.le
      · exact h.1.le
    constructor
    · linarith
    · linarith
  · rename_i h
    have hhalf : 1 ≤ 2 * (q - ⌊q⌋) := not_lt.mp (fun hlt => h (Or.inl hlt))
    push_cast
    constructor
    · linarith
    · linarith

/-- **Half a unit in the last place** is the most that is lost. -/
theorem abs_nearest_sub_le : |nearest f q - q| ≤ 2 ^ f.exponent q / 2 := by
  have hpos : (0 : ℚ) < 2 ^ f.exponent q := zpow_pos (by norm_num) _
  have hsplit : nearest f q - q
      = (halfEven (q / 2 ^ f.exponent q) - q / 2 ^ f.exponent q) * 2 ^ f.exponent q := by
    rw [nearest, sub_mul, div_mul_cancel₀ _ hpos.ne']
  calc |nearest f q - q|
      = |(halfEven (q / 2 ^ f.exponent q) : ℚ) - q / 2 ^ f.exponent q| * 2 ^ f.exponent q := by
        rw [hsplit, abs_mul, abs_of_pos hpos]
    _ ≤ 1 / 2 * 2 ^ f.exponent q := by
        gcongr
        exact abs_halfEven_sub_le _
    _ = 2 ^ f.exponent q / 2 := by ring

/-- **The relative error** of a number with all digits. -/
theorem abs_nearest_sub_le_mul (hq : (2 : ℚ) ^ (f.least + f.digits - 1) ≤ |q|) :
    |nearest f q - q| ≤ |q| / 2 ^ f.digits := by
  have hpos : 0 < |q| := lt_of_lt_of_le (zpow_pos (by norm_num) _) hq
  have hlog : f.least + f.digits - 1 ≤ Int.log 2 |q| :=
    (Int.zpow_le_iff_le_log (by norm_num) hpos).mp (by exact_mod_cast hq)
  -- the last digit is not below the least one
  have hexp : f.exponent q = Int.log 2 |q| + 1 - f.digits := max_eq_left (by omega)
  have hself : (2 : ℚ) ^ Int.log 2 |q| ≤ |q| := by
    exact_mod_cast Int.zpow_log_le_self (by norm_num) hpos
  calc |nearest f q - q| ≤ 2 ^ f.exponent q / 2 := abs_nearest_sub_le f q
    _ = 2 ^ Int.log 2 |q| / 2 ^ f.digits := by
        rw [hexp, zpow_sub₀ (by norm_num), zpow_add₀ (by norm_num), zpow_natCast, zpow_one]
        ring
    _ ≤ |q| / 2 ^ f.digits := by gcongr

example : nearest binary64 (7 / 10) = 6305039478318694 / 2 ^ 53 := by decide +kernel

end Doubles
