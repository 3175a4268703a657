-- SUMMARY: Seventeen digits always suffice, and the shortest digits of a double are its own.
import Mathlib.Data.List.TakeWhile
import Mathlib.Data.Nat.Cast.Order.Field
import EntityQuery.Proofs.Decimal.Interval
import EntityQuery.Proofs.Json.Characters
import EntityQuery.Proofs.Json.Scalar

/-!
# Shortest digits determine the double

The nearest of the decimals with seventeen digits is nearer to a double than
the ends of its interval, so the search for digits always ends. The digits
that it ends with denote a number near the double, and no number is near two
doubles.
-/

namespace EntityQuery

/-! ## What digits denote -/

namespace Digits

/-- The number that digits denote. -/
def value (d : Digits) : ℚ :=
  Text.digitsValue d.digits * 10 ^ (d.exponent + 1 - d.digits.length)

/-- Significant digits do not start with a zero. -/
structure IsProper (d : Digits) : Prop where
  digits : ∀ c ∈ d.digits, c.isDigit = true
  head : ∃ c, d.digits.head? = some c ∧ c ≠ '0'

theorem IsProper.ne_nil {d : Digits} (h : d.IsProper) : d.digits ≠ [] := by
  obtain ⟨c, hc, -⟩ := h.head
  rintro heq
  rw [heq] at hc
  cases hc

/-- Digits are what is left of a number's own digits, and zeros. -/
theorem exists_toDigits_eq (steps : Nat) (grid : Int) :
    ∃ zeros, Nat.toDigits 10 steps = (ofGrid steps grid).digits ++ List.replicate zeros '0' := by
  refine ⟨((Nat.toDigits 10 steps).reverse.takeWhile (· == '0')).length, ?_⟩
  have hzeros : (Nat.toDigits 10 steps).reverse.takeWhile (· == '0') =
      List.replicate ((Nat.toDigits 10 steps).reverse.takeWhile (· == '0')).length '0' :=
    List.eq_replicate_of_mem fun c hc => by
      simpa using List.mem_takeWhile_imp hc
  have hsplit := List.takeWhile_append_dropWhile (p := (· == '0')) (l := (Nat.toDigits 10 steps).reverse)
  rw [hzeros] at hsplit
  have hreverse := congrArg List.reverse hsplit
  rw [List.reverse_reverse, List.reverse_append, List.reverse_replicate] at hreverse
  exact hreverse.symm

theorem digitsValue_ofGrid (steps : Nat) (grid : Int) {zeros : Nat}
    (h : Nat.toDigits 10 steps = (ofGrid steps grid).digits ++ List.replicate zeros '0') :
    steps = 10 ^ zeros * Text.digitsValue (ofGrid steps grid).digits := by
  have hvalue := congrArg Text.digitsValue h
  rwa [Text.digitsValue, Nat.ofDigitChars_ten_toDigits, Text.digitsValue, Nat.ofDigitChars_append,
    Nat.ofDigitChars_replicate_zero] at hvalue

theorem digitsValue_ofGrid_le (steps : Nat) (grid : Int) :
    Text.digitsValue (ofGrid steps grid).digits ≤ steps := by
  obtain ⟨zeros, hzeros⟩ := exists_toDigits_eq steps grid
  exact (Nat.le_mul_of_pos_left _ (by positivity)).trans_eq (digitsValue_ofGrid steps grid hzeros).symm

theorem value_ofGrid (steps : Nat) (grid : Int) : (ofGrid steps grid).value = steps * 10 ^ grid := by
  obtain ⟨zeros, hzeros⟩ := exists_toDigits_eq steps grid
  have hlength := congrArg List.length hzeros
  have hvalue := digitsValue_ofGrid steps grid hzeros
  rw [List.length_append, List.length_replicate] at hlength
  have hexponent : (ofGrid steps grid).exponent + 1 - (ofGrid steps grid).digits.length =
      (zeros : Int) + grid := by
    have hdefn : (ofGrid steps grid).exponent = grid + (Nat.toDigits 10 steps).length - 1 := rfl
    rw [hdefn, hlength]
    push_cast
    ring
  have hsteps : (steps : ℚ) = 10 ^ zeros * Text.digitsValue (ofGrid steps grid).digits := by
    exact_mod_cast hvalue
  rw [value, hexponent, zpow_add₀ (by norm_num), zpow_natCast, ← mul_assoc, mul_comm _ (10 ^ zeros),
    ← hsteps]

theorem isProper_ofGrid {steps : Nat} (h : 0 < steps) (grid : Int) : (ofGrid steps grid).IsProper := by
  obtain ⟨zeros, hzeros⟩ := exists_toDigits_eq steps grid
  have hne : (ofGrid steps grid).digits ≠ [] := by
    intro hnil
    have hvalue := digitsValue_ofGrid steps grid hzeros
    rw [hnil] at hvalue
    exact h.ne' hvalue
  obtain ⟨c, t, htext⟩ := List.exists_cons_of_ne_nil hne
  refine ⟨fun c hc => isDigit_of_mem_ofGrid hc, c, by rw [htext]; rfl, ?_⟩
  rintro rfl
  have hhead : (Text.ofNat steps).head? = some '0' := by
    rw [Text.ofNat, hzeros, htext]
    rfl
  have := Json.eq_zero_of_head?_ofNat hhead
  omega

end Digits

/-! ## The search for digits -/

namespace Interval

variable {bits : UInt64}

theorem length_toDigits_spec {n : Nat} (h : 0 < n) :
    10 ^ ((Nat.toDigits 10 n).length - 1) ≤ n ∧ n < 10 ^ (Nat.toDigits 10 n).length := by
  have hpos := Nat.length_toDigits_pos (b := 10) (n := n)
  refine ⟨?_, (Nat.length_toDigits_le_iff (by decide) hpos).1 (Nat.le_refl _)⟩
  obtain hone | hlong := Nat.eq_or_lt_of_le hpos
  · rw [← hone]
    exact h
  · by_contra hlt
    have := (Nat.length_toDigits_le_iff (b := 10) (n := n) (by decide) (by omega)).2 (not_le.1 hlt)
    omega

/-- The power of ten of the first digit of a value. -/
theorem leading_spec (i : Interval) (hvalue : 0 < i.value) (hunit : 0 < i.unit) :
    (10 : ℚ) ^ i.leading ≤ i.value / i.unit ∧ (i.value : ℚ) / i.unit < 10 ^ (i.leading + 1) := by
  have hcast : (0 : ℚ) < i.unit := by exact_mod_cast hunit
  unfold leading
  split
  · next hle =>
    have hpos := Nat.length_toDigits_pos (b := 10) (n := i.value / i.unit)
    obtain ⟨hlow, hhigh⟩ := length_toDigits_spec (Nat.div_pos hle hunit)
    generalize (Nat.toDigits 10 (i.value / i.unit)).length = count at hpos hlow hhigh ⊢
    have hdown : ((count : Int) - 1) = ((count - 1 : Nat) : Int) := by omega
    rw [sub_add_cancel, hdown, zpow_natCast, zpow_natCast, le_div_iff₀ hcast, div_lt_iff₀ hcast]
    constructor
    · exact_mod_cast (Nat.mul_le_mul_right _ hlow).trans (Nat.div_mul_le_self _ _)
    · have hless := Nat.lt_mul_div_succ i.value hunit
      rw [Nat.mul_comm] at hless
      exact_mod_cast hless.trans_le (Nat.mul_le_mul_right _ hhigh)
  · next hgt =>
    have hpos := Nat.length_toDigits_pos (b := 10) (n := (i.unit - 1) / i.value)
    obtain ⟨hlow, hhigh⟩ := length_toDigits_spec (Nat.div_pos (by omega : i.value ≤ i.unit - 1) hvalue)
    have hupper := Nat.lt_mul_div_succ (i.unit - 1) hvalue
    have hlower := Nat.mul_div_le (i.unit - 1) i.value
    generalize (i.unit - 1) / i.value = parts at hlow hhigh hupper hlower hpos ⊢
    generalize (Nat.toDigits 10 parts).length = count at hpos hlow hhigh ⊢
    have hup : (-(count : Int) + 1) = -((count - 1 : Nat) : Int) := by omega
    rw [hup, zpow_neg, zpow_neg, zpow_natCast, zpow_natCast, le_div_iff₀ hcast, div_lt_iff₀ hcast,
      inv_mul_le_iff₀ (by positivity), lt_inv_mul_iff₀ (by positivity)]
    constructor
    · have hle : i.unit ≤ 10 ^ count * i.value := by
        have := Nat.mul_le_mul_left i.value (show parts + 1 ≤ 10 ^ count from hhigh)
        rw [Nat.mul_comm]
        omega
      exact_mod_cast hle
    · have hlt : 10 ^ (count - 1) * i.value < i.unit := by
        have := Nat.mul_le_mul_left i.value hlow
        rw [Nat.mul_comm]
        omega
      exact_mod_cast hlt

/-- The value of an interval and a step of a grid, both in the finer of their two units. -/
def scaled (i : Interval) (grid : Int) : Nat :=
  i.value * Nat.pow 10 (-grid).toNat

@[inherit_doc scaled]
def step (i : Interval) (grid : Int) : Nat :=
  i.unit * Nat.pow 10 grid.toNat

/-- Whether a number of steps lies in the interval. -/
def coversSteps (i : Interval) (grid : Int) (steps : Nat) : Bool :=
  i.covers (steps * Nat.pow 10 grid.toNat) (Nat.pow 10 (-grid).toNat)

theorem step_pos {i : Interval} (hunit : 0 < i.unit) (grid : Int) : 0 < i.step grid :=
  Nat.mul_pos hunit (Nat.pow_pos (by decide))

theorem scaled_div_step (h : IsPositive bits) (grid : Int) :
    ((ofBits bits).scaled grid : ℚ) / (ofBits bits).step grid = Double.size bits.toNat / 10 ^ grid := by
  have hpower := mul_pow_div_pow 10 grid 1
  have hup : ((Nat.pow 10 grid.toNat : Nat) : ℚ) ≠ 0 := by
    exact_mod_cast (Nat.pow_pos (by decide) : 0 < 10 ^ grid.toNat).ne'
  have hdown : ((Nat.pow 10 (-grid).toNat : Nat) : ℚ) ≠ 0 := by
    exact_mod_cast (Nat.pow_pos (by decide) : 0 < 10 ^ (-grid).toNat).ne'
  have hunit : ((ofBits bits).unit : ℚ) ≠ 0 := by
    exact_mod_cast (unit_pos bits).ne'
  rw [one_mul, one_mul, Nat.cast_ofNat] at hpower
  rw [← value_div_unit h, ← hpower, scaled, step]
  push_cast
  field_simp

theorem coversSteps_iff (h : IsPositive bits) (grid : Int) (steps : Nat) :
    (ofBits bits).coversSteps grid steps = true ↔ Double.Near bits.toNat (steps * 10 ^ grid) := by
  have hpower := mul_pow_div_pow 10 grid steps
  have hdown : 0 < Nat.pow 10 (-grid).toNat := Nat.pow_pos (by decide)
  rw [coversSteps, covers_iff h _ hdown, Nat.cast_mul, hpower, Nat.cast_ofNat]

/-- The number of steps that is nearest to the value. -/
def nearest (i : Interval) (grid : Int) : Nat :=
  let steps := i.scaled grid / i.step grid
  let middle := (2 * steps + 1) * i.step grid
  if 2 * i.scaled grid < middle ∨ (2 * i.scaled grid = middle ∧ steps % 2 = 0) then steps else steps + 1

/-- The number of steps on the other side of the value. -/
def opposite (i : Interval) (grid : Int) : Nat :=
  let steps := i.scaled grid / i.step grid
  if i.nearest grid = steps then steps + 1 else steps

theorem onGrid?_eq (i : Interval) (grid : Int) :
    i.onGrid? grid = (if i.coversSteps grid (i.nearest grid) then some (i.nearest grid)
      else if i.coversSteps grid (i.opposite grid) then some (i.opposite grid) else none) := by
  rw [onGrid?, Nat.mul_assoc 2]
  rfl

theorem nearest_le (i : Interval) (grid : Int) : i.nearest grid ≤ i.scaled grid / i.step grid + 1 := by
  unfold nearest
  dsimp only
  split
  · exact Nat.le_succ _
  · exact Nat.le_refl _

theorem opposite_le (i : Interval) (grid : Int) :
    i.opposite grid ≤ i.scaled grid / i.step grid + 1 := by
  unfold opposite
  dsimp only
  split
  · exact Nat.le_refl _
  · exact Nat.le_succ _

/-- The nearest number of steps is at most half a step away. -/
theorem nearest_spec {i : Interval} (hunit : 0 < i.unit) (grid : Int) :
    2 * i.nearest grid * i.step grid ≤ 2 * i.scaled grid + i.step grid ∧
      2 * i.scaled grid ≤ 2 * i.nearest grid * i.step grid + i.step grid := by
  have hlower := Nat.div_mul_le_self (i.scaled grid) (i.step grid)
  have hupper := Nat.lt_mul_div_succ (i.scaled grid) (step_pos hunit grid)
  unfold nearest
  generalize i.scaled grid = scaled at hlower hupper ⊢
  generalize i.step grid = step at hlower hupper ⊢
  generalize scaled / step = steps at hlower hupper ⊢
  dsimp only
  have hmiddle : (2 * steps + 1) * step = 2 * (steps * step) + step := by ring
  have hnext : step * (steps + 1) = steps * step + step := by ring
  split
  · rw [Nat.mul_assoc]
    omega
  · rw [Nat.mul_assoc, Nat.mul_comm (steps + 1)]
    omega

variable {grid : Int}

/-- The number of steps that the search ends with is near the double. -/
theorem near_of_onGrid? (h : IsPositive bits) {steps : Nat}
    (hsteps : (ofBits bits).onGrid? grid = some steps) :
    Double.Near bits.toNat (steps * 10 ^ grid) := by
  rw [onGrid?_eq] at hsteps
  split at hsteps
  · next hcovers =>
    cases hsteps
    exact (coversSteps_iff h grid _).1 hcovers
  · split at hsteps
    · next hcovers =>
      cases hsteps
      exact (coversSteps_iff h grid _).1 hcovers
    · cases hsteps

theorem le_of_onGrid? {i : Interval} {steps : Nat} (hsteps : i.onGrid? grid = some steps) :
    steps ≤ i.scaled grid / i.step grid + 1 := by
  rw [onGrid?_eq] at hsteps
  split at hsteps
  · cases hsteps
    exact nearest_le i grid
  · split at hsteps
    · cases hsteps
      exact opposite_le i grid
    · cases hsteps

/-- The search succeeds on a grid that is fine enough: the nearest number of steps is near the
    double. -/
theorem isSome_onGrid? (h : IsPositive bits) (hgrid : 10 ^ grid * 10 ^ 16 ≤ Double.size bits.toNat) :
    ((ofBits bits).onGrid? grid).isSome = true := by
  have hnear : Double.Near bits.toNat ((ofBits bits).nearest grid * 10 ^ grid) := by
    have hten : (0 : ℚ) < 10 ^ grid := zpow_pos (by norm_num) grid
    have hstep : (0 : ℚ) < (ofBits bits).step grid := by exact_mod_cast step_pos (unit_pos bits) grid
    have hscaled := scaled_div_step h grid
    rw [div_eq_div_iff hstep.ne' hten.ne'] at hscaled
    obtain ⟨hle, hge⟩ := nearest_spec (unit_pos bits) grid
    have hle : (2 : ℚ) * (ofBits bits).nearest grid * (ofBits bits).step grid ≤
        2 * (ofBits bits).scaled grid + (ofBits bits).step grid := by exact_mod_cast hle
    have hge : (2 : ℚ) * (ofBits bits).scaled grid ≤
        2 * (ofBits bits).nearest grid * (ofBits bits).step grid + (ofBits bits).step grid := by
      exact_mod_cast hge
    have hhalf : (2 : ℚ) * ((ofBits bits).nearest grid * 10 ^ grid) ≤
        2 * Double.size bits.toNat + 10 ^ grid := by
      refine le_of_mul_le_mul_right ?_ hstep
      nlinarith
    have hhalf' : 2 * Double.size bits.toNat ≤
        2 * ((ofBits bits).nearest grid * (10 : ℚ) ^ grid) + 10 ^ grid := by
      refine le_of_mul_le_mul_right ?_ hstep
      nlinarith
    have hsize := (Double.bottom_pos h.1).trans (Double.bottom_lt_size _)
    apply Double.near_of_close <;> linarith
  rw [onGrid?_eq, if_pos ((coversSteps_iff h grid _).2 hnear)]
  rfl

theorem leading_size (h : IsPositive bits) :
    (10 : ℚ) ^ (ofBits bits).leading ≤ Double.size bits.toNat ∧
      Double.size bits.toNat < 10 ^ ((ofBits bits).leading + 1) := by
  have hvalue : 0 < (ofBits bits).value := by
    have hpos := (Double.bottom_pos h.1).trans (Double.bottom_lt_size _)
    rw [← value_div_unit h] at hpos
    by_contra hzero
    rw [Nat.eq_zero_of_not_pos hzero] at hpos
    simp at hpos
  rw [← value_div_unit h]
  exact leading_spec _ hvalue (unit_pos bits)

/-- With `count` digits after the first one, there are at most ten to the power `count + 1` steps. -/
theorem steps_le (h : IsPositive bits) {count steps : Nat}
    (hsteps : (ofBits bits).onGrid? ((ofBits bits).leading - count) = some steps) :
    steps ≤ 10 ^ (count + 1) := by
  have hfloor : (ofBits bits).scaled ((ofBits bits).leading - count) /
      (ofBits bits).step ((ofBits bits).leading - count) < 10 ^ (count + 1) := by
    have hcast : (((ofBits bits).scaled ((ofBits bits).leading - count) /
        (ofBits bits).step ((ofBits bits).leading - count) : Nat) : ℚ) < 10 ^ (count + 1) := by
      refine Nat.cast_div_le.trans_lt ?_
      rw [scaled_div_step h, div_lt_iff₀ (zpow_pos (by norm_num) _), ← zpow_natCast,
        ← zpow_add₀ (by norm_num)]
      have hexponent : ((count + 1 : Nat) : Int) + ((ofBits bits).leading - count) =
          (ofBits bits).leading + 1 := by
        push_cast
        ring
      rw [hexponent]
      exact (leading_size h).2
    exact_mod_cast hcast
  have := le_of_onGrid? hsteps
  omega

end Interval

/-! ## The digits that are found -/

namespace Digits

open EntityQuery.Interval

variable {bits : UInt64}

/-- The search ends, with seventeen digits at most. -/
theorem exists_shortest_eq (h : IsPositive bits) : ∃ count steps : Nat, count ≤ 16 ∧
    (ofBits bits).onGrid? ((ofBits bits).leading - count) = some steps ∧
    shortest bits = ofGrid steps ((ofBits bits).leading - count) := by
  have hseventeen : ((ofBits bits).onGrid? ((ofBits bits).leading - (16 : Nat))).isSome = true := by
    refine isSome_onGrid? h ?_
    have hpower : (10 : ℚ) ^ ((ofBits bits).leading - (16 : Nat)) * 10 ^ 16 =
        10 ^ (ofBits bits).leading := by
      rw [← zpow_natCast, ← zpow_add₀ (by norm_num), sub_add_cancel]
    rw [hpower]
    exact (leading_size h).1
  unfold shortest
  dsimp only
  generalize hfound : List.findSome? _ _ = found
  cases found with
  | none =>
    have hnone := List.findSome?_eq_none_iff.1 hfound 16 (by decide)
    rw [Option.map_eq_none_iff] at hnone
    rw [hnone] at hseventeen
    cases hseventeen
  | some d =>
    obtain ⟨count, hcount, hgrid⟩ := List.exists_of_findSome?_eq_some hfound
    obtain ⟨steps, hsteps, rfl⟩ := Option.map_eq_some_iff.1 hgrid
    exact ⟨count, steps, Nat.le_of_lt_succ (List.mem_range.1 hcount), hsteps, rfl⟩

/-- The shortest digits of a double denote a number near it. -/
theorem near_shortest (h : IsPositive bits) : Double.Near bits.toNat (shortest bits).value := by
  obtain ⟨count, steps, -, hsteps, heq⟩ := exists_shortest_eq h
  rw [heq, value_ofGrid]
  exact near_of_onGrid? h hsteps

theorem isProper_shortest (h : IsPositive bits) : (shortest bits).IsProper := by
  obtain ⟨count, steps, -, hsteps, heq⟩ := exists_shortest_eq h
  rw [heq]
  refine isProper_ofGrid (Nat.pos_of_ne_zero ?_) _
  rintro rfl
  have hpos := (near_of_onGrid? h hsteps).pos h.1
  simp at hpos

theorem digitsValue_shortest_le (h : IsPositive bits) :
    Text.digitsValue (shortest bits).digits ≤ 10 ^ 17 := by
  obtain ⟨count, steps, hcount, hsteps, heq⟩ := exists_shortest_eq h
  rw [heq]
  exact ((digitsValue_ofGrid_le _ _).trans (steps_le h hsteps)).trans
    (Nat.pow_le_pow_right (by decide) (by omega))

/-- The power of ten of the first digit takes three digits. -/
theorem natAbs_exponent_shortest_lt (h : IsPositive bits) : (shortest bits).exponent.natAbs < 1000 := by
  obtain ⟨count, steps, hcount, hsteps, heq⟩ := exists_shortest_eq h
  have hlow : -325 < (ofBits bits).leading := by
    have hlt := (Double.le_size h.1).trans_lt (leading_size h).2
    have := (zpow_lt_zpow_iff_right₀ (by norm_num)).1 hlt
    omega
  have hhigh : (ofBits bits).leading < 309 :=
    (zpow_lt_zpow_iff_right₀ (by norm_num)).1 ((leading_size h).1.trans_lt (Double.size_lt h.2))
  have hlength : (Nat.toDigits 10 steps).length ≤ 18 := by
    have hle := (steps_le h hsteps).trans
      (Nat.pow_le_pow_right (show 0 < 10 by decide) (show count + 1 ≤ 17 by omega))
    exact (Nat.length_toDigits_le_iff (by decide) (by decide)).2 (by omega)
  have hexponent : (shortest bits).exponent =
      (ofBits bits).leading - count + (Nat.toDigits 10 steps).length - 1 := by
    rw [heq]
    rfl
  omega

end Digits

end EntityQuery
