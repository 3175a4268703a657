-- SUMMARY: The intervals of different doubles have no number in common.
import Mathlib.Algebra.Order.Field.Power
import Mathlib.Data.Rat.Cast.Order
import Mathlib.Tactic.FieldSimp
import Mathlib.Tactic.Linarith
import Mathlib.Tactic.NormNum
import Mathlib.Tactic.Positivity
import Mathlib.Tactic.Ring
import EntityQuery.Decimal.Shortest

/-!
# The interval of a double

The bits of a positive double are its place among the positive doubles. The
interval of each ends where that of the next one begins. The end between two
neighbours is a number of one of them only: it belongs to the one whose
mantissa is even.
-/

namespace EntityQuery

/-! ## Doubles by their place -/

namespace Double

/-- The significand of the double at a place. -/
def mantissa (n : Nat) : Nat :=
  if n / 0x10000000000000 = 0 then n % 0x10000000000000
  else n % 0x10000000000000 + 0x10000000000000

/-- The power of two that a quarter of the significand's unit stands for. -/
def power (n : Nat) : Int :=
  (max (n / 0x10000000000000) 1 : Nat) - 1077

/-- How far the interval reaches below the double, in quarters of the significand's unit. -/
def below (n : Nat) : Nat :=
  if n % 0x10000000000000 = 0 ∧ 1 < n / 0x10000000000000 then 1 else 2

/-- The double at a place. -/
def size (n : Nat) : ℚ :=
  4 * mantissa n * 2 ^ power n

/-- The lower end of the interval of a double. -/
def bottom (n : Nat) : ℚ :=
  (4 * mantissa n - below n) * 2 ^ power n

/-- The upper end of the interval of a double. -/
def top (n : Nat) : ℚ :=
  (4 * mantissa n + 2) * 2 ^ power n

/-- The numbers that stand for a double. Both ends do if its significand is even. -/
def Near (n : Nat) (x : ℚ) : Prop :=
  if n % 2 = 0 then bottom n ≤ x ∧ x ≤ top n else bottom n < x ∧ x < top n

theorem mantissa_mod_two (n : Nat) : mantissa n % 2 = n % 2 := by
  unfold mantissa
  split <;> omega

theorem mantissa_pos {n : Nat} (h : 0 < n) : 0 < mantissa n := by
  unfold mantissa
  split <;> omega

/-- The reach below is at least one part in `2 ^ 54` of the double. -/
theorem mantissa_le_below (n : Nat) : 4 * mantissa n ≤ below n * 2 ^ 54 := by
  unfold mantissa below
  split <;> split <;> omega

theorem below_le_two (n : Nat) : below n ≤ 2 := by
  unfold below
  split <;> omega

theorem two_zpow_pos (k : Int) : (0 : ℚ) < 2 ^ k :=
  zpow_pos (by norm_num) k

/-- The interval of a double ends where that of the next one begins. -/
theorem top_eq_bottom_succ (n : Nat) : top n = bottom (n + 1) := by
  by_cases hstored : n % 0x10000000000000 + 1 < 0x10000000000000
  · have hmantissa : mantissa (n + 1) = mantissa n + 1 := by
      unfold mantissa
      split <;> split <;> omega
    have hpower : power (n + 1) = power n := by
      unfold power
      omega
    have hbelow : below (n + 1) = 2 := by
      unfold below
      split <;> omega
    rw [top, bottom, hmantissa, hpower, hbelow]
    push_cast
    ring
  · have hmantissa : mantissa (n + 1) = 0x10000000000000 := by
      unfold mantissa
      split <;> omega
    by_cases hfield : n / 0x10000000000000 = 0
    · have hlast : mantissa n = 0xFFFFFFFFFFFFF := by
        unfold mantissa
        split <;> omega
      have hpower : power (n + 1) = power n := by
        unfold power
        omega
      have hbelow : below (n + 1) = 2 := by
        unfold below
        split <;> omega
      rw [top, bottom, hmantissa, hlast, hpower, hbelow]
      norm_num
    · have hlast : mantissa n = 0x1FFFFFFFFFFFFF := by
        unfold mantissa
        split <;> omega
      have hpower : power (n + 1) = power n + 1 := by
        unfold power
        omega
      have hbelow : below (n + 1) = 1 := by
        unfold below
        split <;> omega
      rw [top, bottom, hmantissa, hlast, hpower, hbelow, zpow_add_one₀ (by norm_num)]
      push_cast
      ring

theorem bottom_lt_size (n : Nat) : bottom n < size n := by
  have hpos : 0 < below n := by
    unfold below
    split <;> omega
  have hcast : (0 : ℚ) < below n := by exact_mod_cast hpos
  exact mul_lt_mul_of_pos_right (by linarith) (two_zpow_pos _)

theorem size_lt_top (n : Nat) : size n < top n :=
  mul_lt_mul_of_pos_right (by linarith) (two_zpow_pos _)

theorem bottom_pos {n : Nat} (h : 0 < n) : 0 < bottom n := by
  have hmantissa : (1 : ℚ) ≤ mantissa n := by exact_mod_cast mantissa_pos h
  have hbelow : (below n : ℚ) ≤ 2 := by exact_mod_cast below_le_two n
  exact mul_pos (by linarith) (two_zpow_pos _)

/-- The interval of a smaller double lies below that of a larger one. -/
theorem top_le_bottom {m n : Nat} (h : m < n) : top m ≤ bottom n := by
  induction n, h using Nat.le_induction with
  | base => exact (top_eq_bottom_succ m).le
  | succ n _ ih =>
    calc top m ≤ bottom n := ih
      _ ≤ top n := ((bottom_lt_size n).trans (size_lt_top n)).le
      _ = bottom (n + 1) := top_eq_bottom_succ n

theorem Near.bottom_le {n : Nat} {x : ℚ} (h : Near n x) : bottom n ≤ x := by
  unfold Near at h
  split at h
  · exact h.1
  · exact h.1.le

theorem Near.le_top {n : Nat} {x : ℚ} (h : Near n x) : x ≤ top n := by
  unfold Near at h
  split at h
  · exact h.2
  · exact h.2.le

theorem Near.pos {n : Nat} {x : ℚ} (h : Near n x) (hn : 0 < n) : 0 < x :=
  (bottom_pos hn).trans_le h.bottom_le

/-- A number is near a double if they differ by less than one part in `2 ^ 54`. -/
theorem near_of_close {n : Nat} {x : ℚ} (hlow : size n - size n / 2 ^ 54 < x)
    (hhigh : x < size n + size n / 2 ^ 54) : Near n x := by
  have hpower := two_zpow_pos (power n)
  have hmantissa : (4 * mantissa n : ℚ) ≤ below n * 2 ^ 54 := by exact_mod_cast mantissa_le_below n
  have hbelow : (below n : ℚ) ≤ 2 := by exact_mod_cast below_le_two n
  have hpart : size n / 2 ^ 54 ≤ below n * 2 ^ power n := by
    rw [size, div_le_iff₀ (by positivity)]
    nlinarith
  have hbottom : bottom n = size n - below n * 2 ^ power n := by
    rw [bottom, size]
    ring
  have htop : top n = size n + 2 * 2 ^ power n := by
    rw [top, size]
    ring
  have hreach : below n * (2 : ℚ) ^ power n ≤ 2 * 2 ^ power n :=
    mul_le_mul_of_nonneg_right hbelow hpower.le
  unfold Near
  split
  · constructor <;> linarith
  · constructor <;> linarith

/-- A number between two doubles that are not neighbours is near one of them at most, and of two
    neighbours only one is even. -/
theorem Near.not_lt {m n : Nat} {x : ℚ} (hm : Near m x) (hn : Near n x) : ¬ m < n := by
  intro h
  have hends : top m = bottom n := by
    have hle := top_le_bottom h
    have htop := hm.le_top
    have hbottom := hn.bottom_le
    linarith
  have hsucc : n = m + 1 := by
    by_contra hne
    have hgap := top_le_bottom (show m + 1 < n by omega)
    have hlt := (bottom_lt_size (m + 1)).trans (size_lt_top (m + 1))
    rw [← top_eq_bottom_succ] at hlt
    linarith
  have hle := hm.le_top
  have hge := hn.bottom_le
  unfold Near at hm hn
  split at hm
  · rw [if_neg (by omega)] at hn
    linarith [hn.1]
  · linarith [hm.2]

/-- A number is near one double only. -/
theorem Near.eq {m n : Nat} {x : ℚ} (hm : Near m x) (hn : Near n x) : m = n := by
  have := hm.not_lt hn
  have := hn.not_lt hm
  omega

/-! ## The range of the doubles -/

/-- Half a unit of the last bit of the largest doubles. -/
def halfUnit : ℚ :=
  2 ^ (970 : Int)

theorem halfUnit_pos : 0 < halfUnit :=
  two_zpow_pos _

theorem cast_mul_halfUnit (n : Nat) : ((n * 2 ^ 970 : Nat) : ℚ) = n * halfUnit := by
  rw [halfUnit, Nat.cast_mul, Nat.cast_pow, ← zpow_natCast]
  norm_num

/-- Beyond the doubles. -/
theorem bottom_infinity : bottom 0x7FF0000000000000 = (2 ^ 54 - 1 : Nat) * halfUnit := by
  have hmantissa : mantissa 0x7FF0000000000000 = 2 ^ 52 := by decide +kernel
  have hpower : power 0x7FF0000000000000 = 970 := by decide +kernel
  have hbelow : below 0x7FF0000000000000 = 1 := by decide +kernel
  rw [bottom, hmantissa, hpower, hbelow, halfUnit]
  norm_num

/-- The end that the largest double has in common with the one before it. -/
theorem bottom_largest : bottom 0x7FEFFFFFFFFFFFFF = (2 ^ 54 - 3 : Nat) * halfUnit := by
  have hmantissa : mantissa 0x7FEFFFFFFFFFFFFF = 2 ^ 53 - 1 := by decide +kernel
  have hpower : power 0x7FEFFFFFFFFFFFFF = -1 + 970 := by decide +kernel
  have hbelow : below 0x7FEFFFFFFFFFFFFF = 2 := by decide +kernel
  rw [bottom, hmantissa, hpower, hbelow, zpow_add₀ (by norm_num), ← halfUnit]
  norm_num
  ring

theorem size_lt {n : Nat} (h : n < 0x7FF0000000000000) : size n < 10 ^ (309 : Int) := by
  have hlt := (size_lt_top n).trans_le (top_le_bottom h)
  rw [bottom_infinity, ← cast_mul_halfUnit] at hlt
  have hten : (2 ^ 54 - 1) * 2 ^ 970 < 10 ^ 309 := by decide +kernel
  exact hlt.trans (by exact_mod_cast hten)

theorem ten_zpow_le : (10 : ℚ) ^ (-324 : Int) ≤ 4 * 2 ^ (-1076 : Int) := by
  have hnat : 2 ^ 1076 ≤ 4 * 10 ^ 324 := by decide +kernel
  rw [zpow_neg, zpow_neg, ← div_eq_mul_inv, inv_le_comm₀ (by positivity) (by positivity), inv_div,
    div_le_iff₀ (by norm_num), mul_comm]
  exact_mod_cast hnat

theorem le_size {n : Nat} (h : 0 < n) : 10 ^ (-324 : Int) ≤ size n := by
  have hmantissa : (1 : ℚ) ≤ mantissa n := by exact_mod_cast mantissa_pos h
  have hpower : (2 : ℚ) ^ (-1076 : Int) ≤ 2 ^ power n :=
    zpow_le_zpow_right₀ (by norm_num) (by unfold power; omega)
  calc (10 : ℚ) ^ (-324 : Int) ≤ 4 * 2 ^ (-1076 : Int) := ten_zpow_le
    _ ≤ 4 * mantissa n * 2 ^ power n :=
      mul_le_mul (by linarith) hpower (two_zpow_pos _).le (by linarith)

end Double

/-! ## Intervals of bits -/

namespace Interval

/-- Bits of the positive doubles that are finite. -/
def IsPositive (bits : UInt64) : Prop :=
  0 < bits.toNat ∧ bits.toNat < 0x7FF0000000000000

/-- A number of steps of a power, as a fraction: the power is above or below the line. -/
theorem mul_pow_div_pow (b : Nat) (k : Int) (x : ℚ) :
    x * (Nat.pow b k.toNat : Nat) / (Nat.pow b (-k).toNat : Nat) = x * b ^ k := by
  obtain hk | hk := Int.le_total 0 k
  · obtain ⟨n, rfl⟩ := Int.eq_ofNat_of_zero_le hk
    simp
  · obtain ⟨n, hn⟩ := Int.eq_ofNat_of_zero_le (a := -k) (by omega)
    obtain rfl : k = -(n : Int) := by omega
    simp [div_eq_mul_inv]

variable {bits : UInt64}

theorem unit_pos (bits : UInt64) : 0 < (ofBits bits).unit :=
  Nat.pow_pos (by decide)

/-- The interval of bits, by their place. -/
theorem ofBits_eq (h : IsPositive bits) : ofBits bits =
    ⟨(4 * Double.mantissa bits.toNat - Double.below bits.toNat) *
        Nat.pow 2 (Double.power bits.toNat).toNat,
      4 * Double.mantissa bits.toNat * Nat.pow 2 (Double.power bits.toNat).toNat,
      (4 * Double.mantissa bits.toNat + 2) * Nat.pow 2 (Double.power bits.toNat).toNat,
      Nat.pow 2 (-Double.power bits.toNat).toNat, bits.toNat % 2 = 0⟩ := by
  have hfield : bits.toNat / 0x10000000000000 % 0x800 = bits.toNat / 0x10000000000000 := by
    have := h.2
    omega
  simp only [ofBits, hfield, ← Double.mantissa_mod_two bits.toNat]
  rfl

theorem low_div_unit (h : IsPositive bits) :
    ((ofBits bits).low : ℚ) / (ofBits bits).unit = Double.bottom bits.toNat := by
  have hbelow : Double.below bits.toNat ≤ 4 * Double.mantissa bits.toNat := by
    have := Double.below_le_two bits.toNat
    have := Double.mantissa_pos h.1
    omega
  rw [ofBits_eq h, Double.bottom]
  have hpower := mul_pow_div_pow 2 (Double.power bits.toNat)
  push_cast [hbelow] at hpower ⊢
  exact hpower _

theorem value_div_unit (h : IsPositive bits) :
    ((ofBits bits).value : ℚ) / (ofBits bits).unit = Double.size bits.toNat := by
  rw [ofBits_eq h, Double.size]
  have hpower := mul_pow_div_pow 2 (Double.power bits.toNat)
  push_cast at hpower ⊢
  exact hpower _

theorem high_div_unit (h : IsPositive bits) :
    ((ofBits bits).high : ℚ) / (ofBits bits).unit = Double.top bits.toNat := by
  rw [ofBits_eq h, Double.top]
  have hpower := mul_pow_div_pow 2 (Double.power bits.toNat)
  push_cast at hpower ⊢
  exact hpower _

/-- The interval covers the numbers that are near the double. -/
theorem covers_iff (h : IsPositive bits) (n : Nat) {d : Nat} (hd : 0 < d) :
    (ofBits bits).covers n d = true ↔ Double.Near bits.toNat (n / d) := by
  have hunit : (0 : ℚ) < (ofBits bits).unit := by exact_mod_cast unit_pos bits
  have hd : (0 : ℚ) < d := by exact_mod_cast hd
  have hclosed : (ofBits bits).closed = decide (bits.toNat % 2 = 0) := by rw [ofBits_eq h]
  rw [Double.Near, ← low_div_unit h, ← high_div_unit h, div_le_div_iff₀ hunit hd,
    div_le_div_iff₀ hd hunit, div_lt_div_iff₀ hunit hd, div_lt_div_iff₀ hd hunit, covers, hclosed]
  by_cases heven : bits.toNat % 2 = 0
  · simp only [heven, decide_true, if_true, Bool.and_eq_true, decide_eq_true_eq]
    norm_cast
  · simp only [heven, decide_false, Bool.false_eq_true, if_false, Bool.and_eq_true,
      decide_eq_true_eq]
    norm_cast

end Interval

end EntityQuery
