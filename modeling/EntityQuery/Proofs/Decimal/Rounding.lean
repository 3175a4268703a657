-- SUMMARY: How far doubles are rounded up, and products of doubles that stay finite.
import EntityQuery.Json.Number
import EntityQuery.Proofs.Decimal.Interval

/-!
# Rounding to a double

A significand of more than 53 bits loses its last ones, and is rounded up by at
most half a unit of the last bit that is left. So the rounding of whole numbers
and of powers of ten is bounded, and a product of two of them is finite if the
exact product of the bounds is.
-/

namespace EntityQuery.Double

open Float.Model Float.Model.UnpackedFloat

/-! ## Shifting a significand -/

/-- A significand from which bits were dropped: the round bit tells that at least half a unit was. -/
structure Drops (m k : Nat) (em : ExtendedMantissa) : Prop where
  mantissa : em.mantissa = m / 2 ^ k
  round : em.roundBit = true → (2 * em.mantissa + 1) * 2 ^ k ≤ 2 * m

theorem Drops.shiftRightOne {m k : Nat} {em : ExtendedMantissa} (h : Drops m k em) :
    Drops m (k + 1) em.shiftRightOne := by
  refine ⟨?_, fun hround => ?_⟩
  · rw [ExtendedMantissa.shiftRightOne, h.mantissa, Nat.div_div_eq_div_mul, Nat.pow_succ]
  · simp only [ExtendedMantissa.shiftRightOne, bne_iff_ne, ne_eq] at hround ⊢
    have hodd : 2 * (em.mantissa / 2) + 1 = em.mantissa := by omega
    have hle : em.mantissa * 2 ^ k ≤ m := h.mantissa ▸ Nat.div_mul_le_self m (2 ^ k)
    rw [hodd, Nat.pow_succ, ← Nat.mul_assoc]
    omega

theorem drops_shiftRight (m k : Nat) : Drops m k ((⟨m, false, false⟩ : ExtendedMantissa) >>> k) := by
  change Drops m k (k.repeat ExtendedMantissa.shiftRightOne ⟨m, false, false⟩)
  induction k with
  | zero => exact ⟨(Nat.div_one m).symm, fun h => Bool.noConfusion h⟩
  | succ k ih => exact ih.shiftRightOne

/-- What is left is rounded to it or to the next one. -/
theorem Drops.roundedMantissa_spec {m k : Nat} {em : ExtendedMantissa} (h : Drops m k em) :
    m / 2 ^ k ≤ em.roundedMantissa ∧ em.roundedMantissa ≤ m / 2 ^ k + 1 ∧
      2 * em.roundedMantissa * 2 ^ k ≤ 2 * m + 2 ^ k := by
  have hle : m / 2 ^ k * 2 ^ k ≤ m := Nat.div_mul_le_self m (2 ^ k)
  obtain ⟨hmantissa, hround⟩ := h
  rw [← hmantissa] at hle ⊢
  have hcase : em.roundedMantissa = em.mantissa ∨
      em.roundBit = true ∧ em.roundedMantissa = em.mantissa + 1 := by
    obtain ⟨mantissa, _ | _, _ | _⟩ := em
    · exact .inl rfl
    · exact .inl rfl
    · have htie : (⟨mantissa, true, false⟩ : ExtendedMantissa).roundedMantissa =
          mantissa + mantissa % 2 := rfl
      obtain heven | hodd := Nat.mod_two_eq_zero_or_one mantissa
      · exact .inl (by rw [htie, heven]; rfl)
      · exact .inr ⟨rfl, by rw [htie, hodd]⟩
    · exact .inr ⟨rfl, rfl⟩
  obtain heq | ⟨hbit, heq⟩ := hcase
  · rw [heq]
    refine ⟨Nat.le_refl _, Nat.le_succ _, ?_⟩
    rw [Nat.mul_assoc]
    exact (Nat.mul_le_mul_left 2 hle).trans (Nat.le_add_right _ _)
  · have hbound := hround hbit
    rw [heq]
    refine ⟨Nat.le_succ _, Nat.le_refl _, ?_⟩
    calc 2 * (em.mantissa + 1) * 2 ^ k = (2 * em.mantissa + 1) * 2 ^ k + 2 ^ k := by ring
      _ ≤ 2 * m + 2 ^ k := Nat.add_le_add_right hbound _

theorem shiftToTargetExponent_eq {m k : Nat} {q : Int} (hlog : m.log2 = 52 + k)
    (hq : -1074 ≤ q + k) :
    shiftToTargetExponent Format.binary64 m q .exact =
      ((⟨m, false, false⟩ : ExtendedMantissa) >>> k, q + k) := by
  have htarget : Format.binary64.targetExponent (totalExponent m q) = q + k := by
    change max ((m.log2 : Int) + 1 + q - (53 : Nat)) (-1074) = q + k
    omega
  have hshift : (q + (k : Int) - q).toNat = k := by omega
  simp only [shiftToTargetExponent, htarget, shiftToExponent, hshift,
    ExtendedMantissa.ofMantissaAndAccuracy]

/-! ## Rounding -/

/-- The significand of a normal double takes 53 bits. -/
def IsNormal (m : Nat) : Prop :=
  2 ^ 52 ≤ m ∧ m < 2 ^ 53

theorem IsNormal.pos {m : Nat} (h : IsNormal m) : 0 < m :=
  Nat.lt_of_lt_of_le (by decide) h.1

theorem IsNormal.log2 {m : Nat} (h : IsNormal m) : m.log2 = 52 :=
  (Nat.log2_eq_iff h.pos.ne').2 h

theorem shiftToTargetExponent_normal {m : Nat} {q : Int} (hm : IsNormal m) (hq : -1074 ≤ q) :
    shiftToTargetExponent Format.binary64 m q .exact = (⟨m, false, false⟩, q) := by
  rw [shiftToTargetExponent_eq (k := 0) hm.log2 (by omega), Nat.cast_zero, add_zero]
  rfl

/-- A significand is shifted and rounded, and shifted again if that made it a bit longer. -/
theorem roundWithAccuracy_eq {f : Format} {m n : Nat} {q p r : Int} {em : ExtendedMantissa}
    {a b : Bool} (hshift : shiftToTargetExponent f m q .exact = (em, p))
    (hagain : shiftToTargetExponent f em.roundedMantissa p .exact = (⟨n, a, b⟩, r)) (hn : 0 < n)
    (s : Sign) : roundWithAccuracy f s m q .exact = .finite s n r hn := by
  rw [roundWithAccuracy, hshift]
  dsimp only
  rw [hagain]
  exact dif_neg hn.ne'

/-- A normal significand stays as it is. -/
theorem roundWithAccuracy_normal {m : Nat} {q : Int} (hm : IsNormal m) (hq : -1074 ≤ q) (s : Sign) :
    roundWithAccuracy Format.binary64 s m q .exact = .finite s m q hm.pos :=
  have hshift := shiftToTargetExponent_normal hm hq
  roundWithAccuracy_eq hshift hshift hm.pos s

/-- A significand of more than 53 bits is rounded to a normal one, up by at most half a unit of its
    last bit. -/
theorem exists_roundWithAccuracy_eq {m k : Nat} {q : Int} (hlog : m.log2 = 52 + k)
    (hq : -1074 ≤ q + k) (s : Sign) :
    ∃ n p, ∃ h : IsNormal n, roundWithAccuracy Format.binary64 s m q .exact = .finite s n p h.pos ∧
      q + k ≤ p ∧ (n : ℚ) * 2 ^ p ≤ (m + 2 ^ k / 2) * 2 ^ q := by
  have hm : m ≠ 0 := by
    rintro rfl
    simp at hlog
    omega
  obtain ⟨hlow, hhigh, hbound⟩ := (drops_shiftRight m k).roundedMantissa_spec
  have hshift := shiftToTargetExponent_eq hlog hq
  generalize hem : (⟨m, false, false⟩ : ExtendedMantissa) >>> k = em at hlow hhigh hbound hshift
  have hleast : 2 ^ 52 ≤ m / 2 ^ k := by
    rw [Nat.le_div_iff_mul_le (by positivity), ← Nat.pow_add, ← hlog]
    exact Nat.log2_self_le hm
  have hmost : m / 2 ^ k < 2 ^ 53 := by
    have hlt := Nat.lt_log2_self (n := m)
    rw [hlog] at hlt
    rw [Nat.div_lt_iff_lt_mul (by positivity), ← Nat.pow_add]
    exact hlt.trans_eq (congrArg _ (by omega))
  have hvalue : (em.roundedMantissa : ℚ) * 2 ^ (q + (k : Int)) ≤ (m + 2 ^ k / 2) * 2 ^ q := by
    have hcast : (2 : ℚ) * em.roundedMantissa * 2 ^ k ≤ 2 * m + 2 ^ k := by exact_mod_cast hbound
    have hpower : (0 : ℚ) < 2 ^ q := zpow_pos (by norm_num) q
    rw [zpow_add₀ (by norm_num), zpow_natCast]
    nlinarith
  by_cases hfull : em.roundedMantissa = 2 ^ 53
  · have hagain : shiftToTargetExponent Format.binary64 em.roundedMantissa (q + k) .exact =
        (⟨2 ^ 52, false, false⟩, q + k + 1) := by
      rw [hfull]
      exact shiftToTargetExponent_eq (k := 1) (by decide +kernel) (by omega)
    refine ⟨2 ^ 52, q + k + 1, ⟨by norm_num, by norm_num⟩,
      roundWithAccuracy_eq hshift hagain (by norm_num) s, by omega, ?_⟩
    rw [hfull] at hvalue
    rw [zpow_add_one₀ (by norm_num)]
    push_cast at hvalue ⊢
    linarith
  · have hnormal : IsNormal em.roundedMantissa := ⟨by omega, by omega⟩
    exact ⟨em.roundedMantissa, q + k, hnormal,
      roundWithAccuracy_eq hshift (shiftToTargetExponent_normal hnormal hq) hnormal.pos s, le_refl _,
      hvalue⟩

/-! ## Packing -/

theorem unpackSign_packComponents (exponent : BitVec 11) (mantissa : BitVec 52) :
    unpackSign (packComponents Format.binary64 .positive exponent mantissa) = 0#1 := by
  change (((0#1 ++ exponent) ++ mantissa).extractLsb 63 63).cast _ = 0#1
  apply BitVec.eq_of_getLsbD_eq
  intro i hi
  obtain rfl : i = 0 := by omega
  simp only [BitVec.getLsbD_cast, BitVec.getLsbD_extractLsb, BitVec.getLsbD_append]
  simp

/-- The first bit of a normal significand is not stored, and is put back before the others. -/
theorem toNat_implicit_append {m : Nat} (hm : IsNormal m) : (1#1 ++ BitVec.ofNat 52 m).toNat = m := by
  have hleast := hm.1
  have hmost := hm.2
  rw [BitVec.toNat_append, ← Nat.shiftLeft_add_eq_or_of_lt (BitVec.isLt _), BitVec.toNat_ofNat,
    Nat.shiftLeft_eq]
  change 1 * 2 ^ 52 + m % 2 ^ 52 = m
  omega

/-- A normal double is packed into its biased exponent and its significand. -/
theorem pack_normal {m n : Nat} {q : Int} (hm : IsNormal m) (hq : q + 1075 = n) (hn : n < 2047) :
    UnpackedFloat.pack Format.binary64 (.finite .positive m q hm.pos) =
      packComponents Format.binary64 .positive (BitVec.ofNat 11 n) (BitVec.ofNat 52 m) := by
  have hfield : (q + ((2 ^ 10 - 1 : Nat) : Int) + (52 : Nat)).toNat = n := by
    have : (2 ^ 10 - 1 : Nat) = 1023 := by decide
    omega
  change (if 2 ^ 11 ≤ (q + ((2 ^ 10 - 1 : Nat) : Int) + (52 : Nat)).toNat + 1 then _
    else if m.log2 + 1 = 53 then packComponents Format.binary64 .positive
      (BitVec.ofNat 11 (q + ((2 ^ 10 - 1 : Nat) : Int) + (52 : Nat)).toNat) (BitVec.ofNat 52 m)
    else _) = _
  rw [hfield, if_neg (by omega), if_pos (by rw [hm.log2])]

/-- A normal double is packed without loss. -/
theorem unpack_pack_normal {m : Nat} {q : Int} (hm : IsNormal m) (hlow : -1074 ≤ q) (hhigh : q ≤ 971) :
    (Float.Model.pack (.finite .positive m q hm.pos)).unpack = .finite .positive m q hm.pos := by
  obtain ⟨n, hn⟩ := Int.eq_ofNat_of_zero_le (show 0 ≤ q + 1075 by omega)
  have hfield : (BitVec.ofNat 11 n).toNat = n := by
    rw [BitVec.toNat_ofNat, Nat.mod_eq_of_lt (by omega)]
  have hne : ∀ k, k < 2 ^ 11 → n ≠ k → BitVec.ofNat 11 n ≠ BitVec.ofNat 11 k := by
    intro k hk hnk heq
    have hvalue := congrArg BitVec.toNat heq
    rw [hfield, BitVec.toNat_ofNat, Nat.mod_eq_of_lt hk] at hvalue
    exact hnk hvalue
  have hinfinite : BitVec.ofNat 11 n ≠ -1#11 := hne 2047 (by norm_num) (by omega)
  have hzero : BitVec.ofNat 11 n ≠ 0#11 := hne 0 (by norm_num) (by omega)
  have hexponent : (n : Int) - (((2 ^ 10 - 1 : Nat) : Int) + (52 : Nat)) = q := by
    have : (2 ^ 10 - 1 : Nat) = 1023 := by decide
    omega
  change UnpackedFloat.unpack Format.binary64
    (UnpackedFloat.pack Format.binary64 (.finite .positive m q hm.pos)) = _
  rw [pack_normal hm hn (by omega)]
  delta UnpackedFloat.unpack
  dsimp only
  rw [if_neg (by rwa [unpackExponent_packComponents]),
    if_neg (by rwa [unpackExponent_packComponents])]
  refine (UnpackedFloat.finite.injEq ..).mpr ⟨by rw [unpackSign_packComponents]; rfl, ?_, ?_⟩
  · rw [unpackMantissa_packComponents, toNat_implicit_append hm]
  · rw [unpackExponent_packComponents, hfield]
    exact hexponent

/-! ## Doubles that were rounded -/

theorem two_zpow_add (i j : Int) : (2 : ℚ) ^ (i + j) = 2 ^ i * 2 ^ j :=
  zpow_add₀ (by norm_num) i j

theorem lt_of_lt_overflow {n : Nat} (h : n < (2 ^ 54 - 1) * 2 ^ 970) :
    (n : ℚ) < (2 ^ 54 - 1) * halfUnit := by
  have hcast : ((2 ^ 54 - 1 : Nat) : ℚ) = 2 ^ 54 - 1 := by norm_num
  have hlt := Nat.cast_lt (α := ℚ).2 h
  rwa [cast_mul_halfUnit, hcast] at hlt

theorem two_zpow_971 : (2 : ℚ) ^ (971 : Int) = 2 * halfUnit := by
  rw [show (971 : Int) = 1 + 970 from rfl, two_zpow_add, zpow_one, halfUnit]

theorem two_zpow_972 : (2 : ℚ) ^ (972 : Int) = 4 * halfUnit := by
  rw [show (972 : Int) = 1 + 971 from rfl, two_zpow_add, two_zpow_971, zpow_one]
  ring

/-- A significand of more than 53 bits is rounded to a finite double if it is less than half a unit
    above the largest one. -/
theorem unpack_pack_roundWithAccuracy {m k : Nat} {q : Int} (hlog : m.log2 = 52 + k)
    (hq : -1074 ≤ q + k) (hfinite : (m : ℚ) * 2 ^ q < (2 ^ 54 - 1) * halfUnit) :
    ∃ n p, ∃ h : IsNormal n, (Float.Model.pack
      (roundWithAccuracy Format.binary64 .positive m q .exact)).unpack = .finite .positive n p h.pos ∧
      q + k ≤ p ∧ (n : ℚ) * 2 ^ p ≤ (m + 2 ^ k / 2) * 2 ^ q := by
  obtain ⟨n, p, hn, heq, hle, hbound⟩ := exists_roundWithAccuracy_eq hlog hq .positive
  have hm : (2 : ℚ) ^ 52 * 2 ^ k ≤ m := by
    have hnat : 2 ^ (52 + k) ≤ m := by
      rw [← hlog]
      refine Nat.log2_self_le ?_
      rintro rfl
      simp at hlog
      omega
    rw [← pow_add]
    exact_mod_cast hnat
  have hpos := halfUnit_pos
  have hunit : (2 : ℚ) ^ k * 2 ^ q = 2 ^ (k + q) := by
    rw [two_zpow_add, zpow_natCast]
  have hkq : k + q ≤ 971 := by
    by_contra hgt
    have hlarge : (2 : ℚ) ^ (972 : Int) ≤ 2 ^ (k + q) := zpow_le_zpow_right₀ (by norm_num) (by omega)
    have hvalue := mul_le_mul_of_nonneg_right hm (zpow_pos (show (0 : ℚ) < 2 by norm_num) q).le
    rw [mul_assoc, hunit] at hvalue
    rw [two_zpow_972] at hlarge
    linarith
  have hp : p ≤ 971 := by
    by_contra hgt
    have hhalf : (2 : ℚ) ^ (k + q) ≤ 2 ^ (971 : Int) := zpow_le_zpow_right₀ (by norm_num) hkq
    have hlarge : (2 : ℚ) ^ (972 : Int) ≤ 2 ^ p := zpow_le_zpow_right₀ (by norm_num) (by omega)
    have hnormal : (2 : ℚ) ^ 52 ≤ n := by exact_mod_cast hn.1
    rw [two_zpow_972] at hlarge
    rw [two_zpow_971] at hhalf
    have hvalue := mul_le_mul hnormal hlarge (by linarith) (Nat.cast_nonneg n)
    linarith
  exact ⟨n, p, hn, by rw [heq, unpack_pack_normal hn (by omega) hp], hle, hbound⟩

/-- A normal double from one up to a number. -/
def AtMost (x : Float) (b : ℚ) : Prop :=
  ∃ m q, ∃ h : IsNormal m, x.toModel.unpack = .finite .positive m q h.pos ∧ -52 ≤ q ∧
    (m : ℚ) * 2 ^ q ≤ b

theorem AtMost.mono {x : Float} {b c : ℚ} (h : AtMost x b) (hle : b ≤ c) : AtMost x c := by
  obtain ⟨m, q, hm, heq, hlow, hbound⟩ := h
  exact ⟨m, q, hm, heq, hlow, hbound.trans hle⟩

/-- A product is finite if that of the bounds is less than half a unit above the largest double. -/
theorem AtMost.isInf_mul {x y : Float} {b c : ℚ} (hx : AtMost x b) (hy : AtMost y c)
    (h : b * c < (2 ^ 54 - 1) * halfUnit) : (x * y).isInf = false := by
  obtain ⟨m, q, hm, hxm, hq, hmb⟩ := hx
  obtain ⟨n, p, hn, hyn, hp, hnc⟩ := hy
  obtain ⟨k, hk, hlog⟩ : ∃ k, 52 ≤ k ∧ (m * n).log2 = 52 + k := by
    have hlow : 2 ^ (52 + 52) ≤ m * n := by
      rw [Nat.pow_add]
      exact Nat.mul_le_mul hm.1 hn.1
    have hle := (Nat.le_log2 (Nat.mul_pos hm.pos hn.pos).ne').2 hlow
    exact ⟨(m * n).log2 - 52, by omega, by omega⟩
  have hprod : ((m * n : Nat) : ℚ) * 2 ^ (q + p) ≤ b * c := by
    have hleft : (0 : ℚ) ≤ n * 2 ^ p := by positivity
    have hright : (0 : ℚ) ≤ b := le_trans (by positivity) hmb
    calc ((m * n : Nat) : ℚ) * 2 ^ (q + p) = (m * 2 ^ q) * (n * 2 ^ p) := by
          rw [two_zpow_add]
          push_cast
          ring
      _ ≤ b * c := mul_le_mul hmb hnc hleft hright
  have hmul : (x * y).toModel = Float.Model.pack
      (roundWithAccuracy Format.binary64 .positive (m * n) (q + p) .exact) := by
    change Float.Model.pack (UnpackedFloat.mul Format.binary64 x.toModel.unpack y.toModel.unpack) = _
    rw [hxm, hyn]
    rfl
  obtain ⟨r, s, hr, heq, -, -⟩ := unpack_pack_roundWithAccuracy hlog (by omega) (hprod.trans_lt h)
  change (x * y).toModel.unpack.isInf = false
  rw [hmul, heq]
  rfl

/-! ## Whole numbers -/

theorem round_eq (s : Sign) (n : Nat) : UnpackedFloat.round Format.binary64 s n 0 =
    roundWithAccuracy Format.binary64 s (n <<< (52 - n.log2)) (-(52 - n.log2 : Nat)) .exact := by
  have htarget : Format.binary64.targetExponent (totalExponent n 0) = n.log2 - 52 := by
    change max ((n.log2 : Int) + 1 + 0 - (53 : Nat)) (-1074) = n.log2 - 52
    omega
  have hshift : (-((n.log2 : Int) - 52)).toNat = 52 - n.log2 := by omega
  simp only [UnpackedFloat.round, htarget, decreaseExponent, zero_sub, hshift]

theorem toFloat_eq {n : Nat} (hpos : 0 < n) (h : n < UInt64.size) :
    n.toUInt64.toFloat.toModel = Float.Model.pack (UnpackedFloat.round Format.binary64 .positive n 0) := by
  have hn : n.toUInt64.toNat = n := Nat.mod_eq_of_lt h
  have hcompare : compare (n : Int) 0 = .gt := Int.compare_eq_gt.2 (by omega)
  change Float.Model.pack (UnpackedFloat.normalize Format.binary64 (n.toUInt64.toNat : Int) 0 .positive) = _
  rw [hn]
  simp only [UnpackedFloat.normalize, hcompare, Int.toNat_natCast]

/-- A whole number of 53 bits is a double. -/
theorem atMost_toFloat_of_lt {n : Nat} (hpos : 0 < n) (h : n < 2 ^ 53) : AtMost n.toUInt64.toFloat n := by
  have hlog : n.log2 ≤ 52 := Nat.le_of_lt_succ ((Nat.log2_lt hpos.ne').2 h)
  have hm : IsNormal (n <<< (52 - n.log2)) := by
    have hlow := Nat.log2_self_le hpos.ne'
    have hhigh := Nat.lt_log2_self (n := n)
    have hsum : n.log2 + (52 - n.log2) = 52 := by omega
    rw [Nat.shiftLeft_eq]
    constructor
    · calc 2 ^ 52 = 2 ^ n.log2 * 2 ^ (52 - n.log2) := by rw [← Nat.pow_add, hsum]
        _ ≤ n * 2 ^ (52 - n.log2) := Nat.mul_le_mul_right _ hlow
    · calc n * 2 ^ (52 - n.log2) < 2 ^ (n.log2 + 1) * 2 ^ (52 - n.log2) :=
            Nat.mul_lt_mul_of_pos_right hhigh (by positivity)
        _ = 2 ^ 53 := by rw [← Nat.pow_add]; congr 1; omega
  refine ⟨_, -(52 - n.log2 : Nat), hm, ?_, by omega, ?_⟩
  · rw [toFloat_eq hpos (h.trans (by decide)), round_eq, roundWithAccuracy_normal hm (by omega),
      unpack_pack_normal hm (by omega) (by omega)]
  · rw [Nat.shiftLeft_eq, zpow_neg, zpow_natCast]
    push_cast
    rw [mul_assoc, mul_inv_cancel₀ (by positivity), mul_one]

/-- A larger one is rounded up by at most half a unit. -/
theorem atMost_toFloat {n k : Nat} (hlog : n.log2 = 52 + k) (h : n < UInt64.size) :
    AtMost n.toUInt64.toFloat (n + 2 ^ k / 2) := by
  have hpos : 0 < n := by
    rw [Nat.pos_iff_ne_zero]
    rintro rfl
    simp at hlog
    omega
  have hshift : n <<< (52 - n.log2) = n := by
    rw [hlog, Nat.sub_eq_zero_of_le (Nat.le_add_right _ _), Nat.shiftLeft_zero]
  have hexponent : (-(52 - n.log2 : Nat) : Int) = 0 := by omega
  have hfinite : (n : ℚ) * 2 ^ (0 : Int) < (2 ^ 54 - 1) * halfUnit := by
    have hsize : (n : ℚ) < 18446744073709551616 := by exact_mod_cast h
    have hlarge : (2 : ℚ) ^ (64 : Int) ≤ halfUnit := zpow_le_zpow_right₀ (by norm_num) (by norm_num)
    rw [zpow_zero, mul_one]
    have := halfUnit_pos
    norm_num at hlarge ⊢
    linarith
  obtain ⟨m, q, hm, heq, hq, hbound⟩ := unpack_pack_roundWithAccuracy hlog (by omega) hfinite
  rw [zpow_zero, mul_one] at hbound
  refine ⟨m, q, hm, ?_, by omega, hbound⟩
  rw [toFloat_eq hpos h, round_eq, hshift, hexponent, heq]

/-! ## Powers of ten -/

/-- Whether a double is normal and at most a whole number. -/
def isAtMost (x : Float) (n : Nat) : Bool :=
  match x.toModel.unpack with
  | .finite .positive m q _ =>
    2 ^ 52 ≤ m && m < 2 ^ 53 && -52 ≤ q && m * 2 ^ (q + 52).toNat ≤ n * 2 ^ 52
  | _ => false

theorem atMost_of_isAtMost {x : Float} {n : Nat} (h : isAtMost x n = true) : AtMost x n := by
  unfold isAtMost at h
  split at h
  · next m q hpos heq =>
    simp only [Bool.and_eq_true, decide_eq_true_eq] at h
    obtain ⟨⟨⟨hlow, hhigh⟩, hq⟩, hbound⟩ := h
    refine ⟨m, q, ⟨hlow, hhigh⟩, heq, hq, ?_⟩
    obtain ⟨j, hj⟩ := Int.eq_ofNat_of_zero_le (show 0 ≤ q + 52 by omega)
    obtain rfl : q = (j : Int) - 52 := by omega
    have hcast : (m : ℚ) * 2 ^ j ≤ n * 2 ^ 52 := by
      rw [hj, Int.toNat_natCast] at hbound
      exact_mod_cast hbound
    rw [zpow_sub₀ (by norm_num), zpow_natCast, ← mul_div_assoc, div_le_iff₀ (by positivity)]
    exact hcast
  · cases h

theorem powerOfTen_eq {e : Nat} (hlow : 22 < e) (hhigh : e ≤ 308) :
    (Json.powerOfTen e).toModel = Float.Model.pack
      (roundWithAccuracy Format.binary64 .positive (2 ^ 53 * 10 ^ e) (-53) .exact) := by
  have hslow : ¬ ((1 : Nat) < 2 ^ 53 ∧ e ≤ 22) := by omega
  rw [Json.powerOfTen, Float.ofScientific, dif_neg hslow]
  change Float.Model.pack (UnpackedFloat.ofScientific Format.binary64 1 (e : Int)) = _
  have hfits : ¬ (e : Int) > 2 ^ Format.binary64.exponentBits := by
    change ¬ (e : Int) > 2 ^ 11
    omega
  have hlarge : ¬ (e : Int) < -((2 ^ Format.binary64.exponentBits : Int) + Nat.log2 1) := by
    change ¬ (e : Int) < -(2 ^ 11 + (Nat.log2 1 : Int))
    omega
  rw [UnpackedFloat.ofScientific, dif_neg (by decide), if_neg hfits, if_neg hlarge,
    if_pos (by omega)]
  rfl

/-- A power of ten is rounded up by at most one part in `2 ^ 53`. -/
theorem atMost_powerOfTen {e : Nat} (h : e ≤ 308) :
    AtMost (Json.powerOfTen e) (10 ^ e * (1 + 1 / 2 ^ 53)) := by
  by_cases hlow : e ≤ 22
  · have hall : ∀ e < 23, isAtMost (Json.powerOfTen e) (10 ^ e) = true := by decide +kernel
    refine (atMost_of_isAtMost (hall e (by omega))).mono ?_
    have hpower : (0 : ℚ) < 10 ^ e := by positivity
    push_cast
    linarith
  have hne : 2 ^ 53 * 10 ^ e ≠ 0 := by positivity
  obtain ⟨k, hlog⟩ : ∃ k, (2 ^ 53 * 10 ^ e).log2 = 52 + (k + 1) := by
    have hle : 2 ^ 53 ≤ 2 ^ 53 * 10 ^ e := Nat.le_mul_of_pos_right _ (by positivity)
    have := (Nat.le_log2 hne).2 hle
    exact ⟨(2 ^ 53 * 10 ^ e).log2 - 53, by omega⟩
  have hfinite : ((2 ^ 53 * 10 ^ e : Nat) : ℚ) * 2 ^ (-53 : Int) < (2 ^ 54 - 1) * halfUnit := by
    have hcancel : ((2 ^ 53 * 10 ^ e : Nat) : ℚ) * 2 ^ (-53 : Int) = (10 ^ e : Nat) := by
      push_cast
      rw [zpow_neg]
      norm_num
      ring
    rw [hcancel]
    exact lt_of_lt_overflow ((Nat.pow_le_pow_right (by decide) h).trans_lt (by decide +kernel))
  have hunit : (2 : ℚ) ^ (k + 1) / 2 ≤ 10 ^ e := by
    have hnat := Nat.log2_self_le hne
    rw [hlog, show 2 ^ (52 + (k + 1)) = 2 ^ 53 * 2 ^ k by ring] at hnat
    have hle : 2 ^ k ≤ 10 ^ e := Nat.le_of_mul_le_mul_left hnat (by positivity)
    rw [pow_succ, mul_div_assoc, div_self (by norm_num), mul_one]
    exact_mod_cast hle
  obtain ⟨m, q, hm, heq, hq, hbound⟩ := unpack_pack_roundWithAccuracy hlog (by omega) hfinite
  refine ⟨m, q, hm, ?_, by omega, hbound.trans ?_⟩
  · rw [powerOfTen_eq (by omega) h, heq]
  · push_cast
    rw [zpow_neg]
    norm_num
    linarith

end EntityQuery.Double
