import Mathlib.Data.Int.Log
import Mathlib.Tactic

/-!
# Numbers in double precision

The rounding of a number that is not negative to 53 significant bits, to the nearest, and to the
even one of two that are as near.  The exponent has no bounds here: the numbers that are rounded are
far from the largest and from the smallest one of the format.

* `roundEven`, `toDouble`: to an integer, and to a double.
* `toDouble_mono`: rounding keeps the order.
* `toDouble_natCast`: integers below `2 ^ 53` are doubles.
-/

namespace LsmFork
namespace Double

/-! ## Integers -/

/-- The nearest integer, or the even one of the two nearest. -/
def roundEven (x : ℚ) : ℤ :=
  if x - ⌊x⌋ < 1 / 2 then ⌊x⌋ else if 1 / 2 < x - ⌊x⌋ then ⌊x⌋ + 1 else ⌊x⌋ + ⌊x⌋ % 2

theorem roundEven_intCast (n : ℤ) : roundEven n = n := by
  rw [roundEven, Int.floor_intCast, sub_self, if_pos (by norm_num)]

theorem floor_le_roundEven (x : ℚ) : ⌊x⌋ ≤ roundEven x := by
  rw [roundEven]
  split_ifs <;> omega

theorem roundEven_le_floor (x : ℚ) : roundEven x ≤ ⌊x⌋ + 1 := by
  rw [roundEven]
  split_ifs <;> omega

theorem roundEven_mono : Monotone roundEven := by
  intro x y hxy
  rcases (Int.floor_mono hxy).lt_or_eq with hlt | heq
  · calc roundEven x ≤ ⌊x⌋ + 1 := roundEven_le_floor x
      _ ≤ ⌊y⌋ := hlt
      _ ≤ roundEven y := floor_le_roundEven y
  · -- between the same two integers, the larger number is not nearer to the lower one
    rw [roundEven, roundEven, heq]
    split_ifs
    all_goals first
      | omega
      | linarith

/-! ## Doubles -/

/-- The distance between the doubles around a number. -/
def ulp (x : ℚ) : ℚ := 2 ^ (Int.log 2 x - 52)

/-- The double nearest to a number. -/
def toDouble (x : ℚ) : ℚ := roundEven (x / ulp x) * ulp x

theorem ulp_pos (x : ℚ) : 0 < ulp x := zpow_pos (by norm_num) _

theorem toDouble_zero : toDouble 0 = 0 := by
  have hround : roundEven 0 = 0 := by simpa using roundEven_intCast 0
  rw [toDouble, zero_div, hround, Int.cast_zero, zero_mul]

theorem toDouble_le {x : ℚ} {n : ℤ} (h : x ≤ n * ulp x) : toDouble x ≤ n * ulp x := by
  have hround : roundEven (x / ulp x) ≤ roundEven n :=
    roundEven_mono ((div_le_iff₀ (ulp_pos x)).mpr h)
  rw [roundEven_intCast] at hround
  exact mul_le_mul_of_nonneg_right (Int.cast_le.mpr hround) (ulp_pos x).le

theorem le_toDouble {x : ℚ} {n : ℤ} (h : n * ulp x ≤ x) : n * ulp x ≤ toDouble x := by
  have hround : roundEven n ≤ roundEven (x / ulp x) :=
    roundEven_mono ((le_div_iff₀ (ulp_pos x)).mpr h)
  rw [roundEven_intCast] at hround
  exact mul_le_mul_of_nonneg_right (Int.cast_le.mpr hround) (ulp_pos x).le

theorem toDouble_nonneg {x : ℚ} (h : 0 ≤ x) : 0 ≤ toDouble x := by
  have hzero := le_toDouble (x := x) (n := 0) (by rwa [Int.cast_zero, zero_mul])
  rwa [Int.cast_zero, zero_mul] at hzero

/-- The powers of two around a number, as multiples of the distance. -/
theorem two_zpow_log (x : ℚ) : (2 : ℚ) ^ Int.log 2 x = ((2 ^ 52 : ℤ) : ℚ) * ulp x := by
  rw [ulp, zpow_sub₀ (by norm_num)]
  norm_num
  ring

/-- **Rounding keeps the order.** -/
theorem toDouble_mono {x y : ℚ} (hx : 0 ≤ x) (hxy : x ≤ y) : toDouble x ≤ toDouble y := by
  rcases hx.eq_or_lt with rfl | hpos
  · rw [toDouble_zero]
    exact toDouble_nonneg hxy
  rcases (Int.log_mono_right (b := 2) hpos hxy).lt_or_eq with hlt | heq
  · -- there is a power of two between them
    have hup : x ≤ ((2 ^ 53 : ℤ) : ℚ) * ulp x := by
      have hlog := (Int.lt_zpow_succ_log_self (b := 2) (by norm_num) x).le
      rw [Nat.cast_ofNat, zpow_add_one₀ (by norm_num), two_zpow_log] at hlog
      push_cast at hlog ⊢
      linarith
    have hdown : ((2 ^ 52 : ℤ) : ℚ) * ulp y ≤ y := by
      have hlog := Int.zpow_log_le_self (b := 2) (by norm_num) (hpos.trans_le hxy)
      rwa [Nat.cast_ofNat, two_zpow_log] at hlog
    calc toDouble x ≤ ((2 ^ 53 : ℤ) : ℚ) * ulp x := toDouble_le hup
      _ = (2 : ℚ) ^ (Int.log 2 x + 1) := by
        rw [zpow_add_one₀ (by norm_num), two_zpow_log]
        push_cast
        ring
      _ ≤ (2 : ℚ) ^ Int.log 2 y := zpow_le_zpow_right₀ (by norm_num) hlt
      _ = ((2 ^ 52 : ℤ) : ℚ) * ulp y := two_zpow_log y
      _ ≤ toDouble y := le_toDouble hdown
  · have hulp : ulp x = ulp y := by rw [ulp, heq, ulp]
    rw [toDouble, toDouble, hulp]
    have hround := roundEven_mono (div_le_div_of_nonneg_right hxy (ulp_pos y).le)
    exact mul_le_mul_of_nonneg_right (Int.cast_le.mpr hround) (ulp_pos y).le

/-- **Integers** of at most 53 bits are doubles. -/
theorem toDouble_natCast {n : ℕ} (h : n < 2 ^ 53) : toDouble n = n := by
  have hlog : Nat.log 2 n ≤ 52 := by
    by_cases hn : n = 0
    · subst hn
      decide
    · exact Nat.lt_succ_iff.mp (Nat.log_lt_of_lt_pow hn h)
  have hulp : ulp n * 2 ^ (52 - Nat.log 2 n) = 1 := by
    rw [ulp, Int.log_natCast, ← zpow_natCast, ← zpow_add₀ (by norm_num), Nat.cast_sub hlog]
    norm_num
  have hdiv : (n : ℚ) / ulp n = ((n * 2 ^ (52 - Nat.log 2 n) : ℤ) : ℚ) := by
    rw [div_eq_iff (ulp_pos _).ne']
    push_cast
    rw [mul_assoc, mul_comm _ (ulp _), hulp, mul_one]
  rw [toDouble, hdiv, roundEven_intCast, ← hdiv, div_mul_cancel₀ _ (ulp_pos _).ne']

/-- The double nearest to `0.1`. -/
example : toDouble (1 / 10) = 3602879701896397 / 2 ^ 55 := by decide +kernel

end Double
end LsmFork
