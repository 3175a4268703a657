-- SUMMARY: The text of doubles in its parts, and the number that the parts denote.
import EntityQuery.Proofs.Decimal.Rounding
import EntityQuery.Proofs.Decimal.Shortest

/-!
# The text of doubles

Digits are written in place or with an exponent, and in every form they denote
the same number. So the text of a finite double determines the double, and as
it has a fraction or an exponent it is never that of a whole number.
-/

namespace EntityQuery

/-! ## The number that parts denote -/

namespace Text

theorem digitsValue_append_zeros (t : Text) (n : Nat) :
    digitsValue (t ++ List.replicate n '0') = 10 ^ n * digitsValue t := by
  rw [digitsValue, Nat.ofDigitChars_append, Nat.ofDigitChars_replicate_zero]
  rfl

theorem digitsValue_zeros_append (t : Text) (n : Nat) :
    digitsValue (List.replicate n '0' ++ t) = digitsValue t := by
  rw [digitsValue, Nat.ofDigitChars_append, Nat.ofDigitChars_replicate_zero, Nat.mul_zero]
  rfl

theorem digitsValue_lt {t : Text} (h : ∀ c ∈ t, c.isDigit = true) : digitsValue t < 10 ^ t.length := by
  induction t with
  | nil => exact Nat.one_pos
  | cons c t ih =>
    obtain ⟨hc, ht⟩ := List.forall_mem_cons.1 h
    have hdigit : c.toNat - '0'.toNat ≤ 9 := by
      simp only [Char.isDigit, Bool.and_eq_true, decide_eq_true_eq] at hc
      have hle := UInt32.le_iff_toNat_le.1 hc.2
      change c.toNat ≤ 57 at hle
      change c.toNat - 48 ≤ 9
      omega
    have hrest := ih ht
    rw [digitsValue, Nat.ofDigitChars_cons, Nat.ofDigitChars_eq_ofDigitChars_zero, List.length_cons,
      Nat.pow_succ]
    have hscale := Nat.mul_le_mul_left (10 ^ t.length) hdigit
    rw [digitsValue] at hrest
    simp only [Nat.mul_zero, Nat.zero_add]
    omega

end Text

namespace Json.NumberParts

/-- The digits of a number, as a whole number. -/
def significand (n : NumberParts) : Nat :=
  Text.digitsValue (n.whole ++ n.fraction.getD [])

/-- The power of ten that the last digit of a number stands for. -/
def power (n : NumberParts) : Int :=
  n.exponent.getD 0 - (n.fraction.getD []).length

/-- The number that parts denote, without the sign. -/
def size (n : NumberParts) : ℚ :=
  n.significand * 10 ^ n.power

/-- A number that is written with a fraction or an exponent. -/
def HasTail (n : NumberParts) : Prop :=
  n.fraction.isSome = true ∨ n.exponent.isSome = true

end Json.NumberParts

namespace Digits

open EntityQuery.Json (NumberParts digitsText)

/-- The parts that digits are written in. -/
def parts (negative : Bool) (d : Digits) : NumberParts :=
  if 0 ≤ d.exponent ∧ d.exponent ≤ 15 then
    let count := d.exponent.toNat + 1
    let whole := d.digits.take count
    let fraction := d.digits.drop count
    ⟨negative, whole ++ List.replicate (count - whole.length) '0',
      some (if fraction.isEmpty then ['0'] else fraction), none⟩
  else if -5 ≤ d.exponent ∧ d.exponent < 0 then
    ⟨negative, ['0'], some (List.replicate (d.exponent.natAbs - 1) '0' ++ d.digits), none⟩
  else
    ⟨negative, d.digits.take 1, if d.digits.length ≤ 1 then none else some (d.digits.drop 1),
      some d.exponent⟩

theorem text_parts (negative : Bool) (d : Digits) :
    (d.parts negative).text = (if negative then ['-'] else []) ++ digitsText d := by
  unfold parts digitsText
  split
  · simp [NumberParts.text, NumberParts.fractionText, NumberParts.exponentText]
  · split
    · simp [NumberParts.text, NumberParts.fractionText, NumberParts.exponentText]
    · split <;> simp [NumberParts.text, NumberParts.fractionText, NumberParts.exponentText]

theorem isWritten_parts (negative : Bool) {d : Digits} (h : d.IsProper) : (d.parts negative).IsWritten := by
  have hne := h.ne_nil
  have hzeros : ∀ n, ∀ c ∈ List.replicate n '0', c.isDigit = true := by
    intro n c hc
    rw [List.eq_of_mem_replicate hc]
    rfl
  have hdigits : ∀ t ⊆ d.digits, ∀ c ∈ t, c.isDigit = true := fun t ht c hc => h.digits c (ht hc)
  -- A whole part that starts with digits does not start with a zero.
  have hhead : ∀ (n : Nat) (t : Text), (d.digits.take (n + 1) ++ t).head? ≠ some '0' := by
    intro n t
    obtain ⟨c, hc, hc₀⟩ := h.head
    cases hd : d.digits with
    | nil => exact absurd hd hne
    | cons c' digits =>
      rw [hd] at hc
      cases hc
      exact fun heq => hc₀ (Option.some.inj heq)
  unfold parts
  split
  · dsimp only
    refine ⟨List.forall_mem_append.2 ⟨hdigits _ (List.take_subset _ _), hzeros _⟩, by simp [hne],
      fun heq => absurd heq (hhead _ _), ?_⟩
    rintro digits ⟨⟩
    split
    · exact ⟨by decide, List.forall_mem_singleton.2 rfl⟩
    · next hrest => exact ⟨by simpa using hrest, hdigits _ (List.drop_subset _ _)⟩
  · split
    · refine ⟨by simp, by simp, fun _ => rfl, ?_⟩
      rintro digits ⟨⟩
      exact ⟨by simp [hne], List.forall_mem_append.2 ⟨hzeros _, h.digits⟩⟩
    · refine ⟨hdigits _ (List.take_subset _ _), by simp [hne], fun heq => absurd heq ?_, ?_⟩
      · rw [← List.append_nil (d.digits.take 1)]
        exact hhead 0 []
      · intro digits heq
        dsimp only at heq
        split at heq
        · cases heq
        · next hlong =>
          cases heq
          refine ⟨?_, hdigits _ (List.drop_subset _ _)⟩
          rw [Ne, List.drop_eq_nil_iff]
          exact hlong

/-- In every form the digits are followed by some zeros, and the power of the last digit makes up for
    them. There are zeros only if all digits stand before the point. -/
theorem parts_spec (negative : Bool) {d : Digits} (h : d.digits ≠ []) : ∃ zeros : Nat,
    (d.parts negative).significand = 10 ^ zeros * Text.digitsValue d.digits ∧
    (d.parts negative).power + zeros = d.exponent + 1 - d.digits.length ∧
    (zeros = 0 ∨ (d.parts negative).power = -1 ∧ zeros + d.digits.length ≤ 17) := by
  unfold parts
  split
  · next hplace =>
    obtain ⟨n, hn⟩ := Int.eq_ofNat_of_zero_le hplace.1
    simp only [hn, Int.toNat_natCast]
    by_cases hshort : d.digits.length ≤ n + 1
    · rw [List.take_of_length_le hshort, List.drop_eq_nil_of_le hshort]
      have hpower : NumberParts.power ⟨negative, d.digits ++ List.replicate (n + 1 - d.digits.length) '0',
          some (if ([] : Text).isEmpty then ['0'] else []), none⟩ = -1 := rfl
      refine ⟨n + 1 - d.digits.length + 1, ?_, ?_, .inr ⟨hpower, ?_⟩⟩
      · rw [← Text.digitsValue_append_zeros, List.replicate_succ', ← List.append_assoc]
        rfl
      · rw [hpower]
        omega
      · omega
    · have hlength : (d.digits.take (n + 1)).length = n + 1 := List.length_take_of_le (by omega)
      have hrest : (d.digits.drop (n + 1)).isEmpty = false := by
        simp only [List.isEmpty_eq_false_iff, ne_eq, List.drop_eq_nil_iff]
        exact hshort
      rw [hlength, Nat.sub_self, List.replicate_zero, List.append_nil, hrest]
      refine ⟨0, ?_, ?_, .inl rfl⟩
      · simp [NumberParts.significand]
      · simp only [NumberParts.power, Option.getD_none, Option.getD_some, Bool.false_eq_true, if_false,
          List.length_drop]
        omega
  · split
    · next hplace =>
      refine ⟨0, ?_, ?_, .inl rfl⟩
      · have hzero : ['0'] ++ (List.replicate (d.exponent.natAbs - 1) '0' ++ d.digits) =
            List.replicate (d.exponent.natAbs - 1 + 1) '0' ++ d.digits := by
          rw [List.replicate_succ]
          rfl
        rw [NumberParts.significand, Option.getD_some, hzero, Text.digitsValue_zeros_append, pow_zero,
          Nat.one_mul]
      · simp only [NumberParts.power, Option.getD_none, Option.getD_some, List.length_append,
          List.length_replicate]
        omega
    · refine ⟨0, ?_, ?_, .inl rfl⟩
      · rw [NumberParts.significand, pow_zero, Nat.one_mul]
        split
        · next hshort =>
          rw [Option.getD_none, List.append_nil, List.take_of_length_le hshort]
        · rw [Option.getD_some, List.take_append_drop]
      · simp only [NumberParts.power, Option.getD_some]
        have hpos := List.length_pos_iff.2 h
        split
        · simp only [Option.getD_none, List.length_nil]
          omega
        · simp only [Option.getD_some, List.length_drop]
          omega

/-- Digits denote the same number in each of the forms that they are written in. -/
theorem size_parts (negative : Bool) {d : Digits} (h : d.digits ≠ []) :
    (d.parts negative).size = d.value := by
  obtain ⟨zeros, hdigits, hpower, -⟩ := parts_spec negative h
  rw [NumberParts.size, value, hdigits, ← hpower, zpow_add₀ (by norm_num), zpow_natCast]
  push_cast
  ring

theorem significand_parts_le (negative : Bool) {d : Digits} (h : d.IsProper)
    (hdigits : Text.digitsValue d.digits ≤ 10 ^ 17) : (d.parts negative).significand ≤ 10 ^ 17 := by
  obtain ⟨zeros, heq, -, rfl | ⟨-, hlength⟩⟩ := parts_spec negative h.ne_nil
  · rw [heq, pow_zero, Nat.one_mul]
    exact hdigits
  · rw [heq]
    calc 10 ^ zeros * Text.digitsValue d.digits ≤ 10 ^ zeros * 10 ^ d.digits.length :=
          Nat.mul_le_mul_left _ (Text.digitsValue_lt h.digits).le
      _ = 10 ^ (zeros + d.digits.length) := (Nat.pow_add ..).symm
      _ ≤ 10 ^ 17 := Nat.pow_le_pow_right (by decide) hlength

/-- An exponent is that of the first digit, if it is written at all. -/
theorem natAbs_exponent_parts_le (negative : Bool) (d : Digits) :
    ((d.parts negative).exponent.getD 0).natAbs ≤ d.exponent.natAbs := by
  unfold parts
  split
  · exact Nat.zero_le _
  · split
    · exact Nat.zero_le _
    · exact Nat.le_refl _

theorem negative_parts (negative : Bool) (d : Digits) : (d.parts negative).negative = negative := by
  unfold parts
  split
  · rfl
  · split <;> rfl

/-- Digits are written with a fraction or with an exponent. -/
theorem hasTail_parts (negative : Bool) (d : Digits) : (d.parts negative).HasTail := by
  unfold parts
  split
  · exact .inl rfl
  · split
    · exact .inl rfl
    · exact .inr rfl

end Digits

/-! ## Reading doubles -/

namespace Json.NumberParts

/-- A number with a fraction or an exponent is read as a double, if its digits fit a significand. -/
theorem value?_eq {n : NumberParts} (htail : n.HasTail) (hsize : n.significand < UInt64.size)
    (hexponent : (n.exponent.getD 0).natAbs < 0x80000000) :
    n.value? = (scaled? n.significand n.power).map n.signed := by
  have hwhole : Nat.ofDigitChars 10 n.whole 0 < UInt64.size := by
    refine (le_ofDigitChars (n.fraction.getD []) _).trans_lt ?_
    rwa [← Nat.ofDigitChars_append]
  have hfirst := takeSignificand_eq hwhole
  have hboth : takeSignificand (Nat.ofDigitChars 10 n.whole 0) (n.fraction.getD []) =
      (n.significand, []) := by
    have hsum : Nat.ofDigitChars 10 (n.fraction.getD []) (Nat.ofDigitChars 10 n.whole 0) = n.significand :=
      (Nat.ofDigitChars_append 0).symm
    rw [takeSignificand_eq (by rwa [hsum]), hsum]
  have hdouble : n.double? = (scaled? n.significand n.power).map n.signed := by
    simp only [double?, hfirst, hboth, if_pos hexponent, List.length_nil, Nat.sub_zero, power]
    congr 2
    omega
  rw [← hdouble]
  unfold value?
  split
  · next hfraction hexponent _ => simp [HasTail, hfraction, hexponent] at htail
  · rfl

end Json.NumberParts

namespace Json

section

variable {n e : Nat}

/-- A significand of 53 bits is exact, and only the power of ten is rounded. -/
theorem isInf_mul_powerOfTen_of_lt (hpos : 0 < n) (he : e ≤ 308) (hn : n < 2 ^ 53)
    (h : n * 10 ^ e ≤ (2 ^ 54 - 3) * 2 ^ 970) : (n.toUInt64.toFloat * powerOfTen e).isInf = false := by
  refine (Double.atMost_toFloat_of_lt hpos hn).isInf_mul (Double.atMost_powerOfTen he) ?_
  have hvalue : (n : ℚ) * 10 ^ e ≤ (2 ^ 54 - 3 : Nat) * Double.halfUnit := by
    rw [← Double.cast_mul_halfUnit]
    exact_mod_cast h
  have hunit := Double.halfUnit_pos
  rw [← mul_assoc]
  norm_num at hvalue ⊢
  linarith

/-- A larger one is rounded too. -/
theorem isInf_mul_powerOfTen (he : e ≤ 291) (hlow : 2 ^ 53 ≤ n) (hhigh : n ≤ 10 ^ 17) :
    (n.toUInt64.toFloat * powerOfTen e).isInf = false := by
  have hne : n ≠ 0 := by omega
  have hlow' := (Nat.le_log2 hne).2 hlow
  have hhigh' := (Nat.log2_lt hne).2 (show n < 2 ^ 57 by omega)
  have hlog : n.log2 = 52 + (n.log2 - 52) := by omega
  have hfits : n < UInt64.size := hhigh.trans_lt (by decide)
  have hround : ((n : ℚ) + 2 ^ (n.log2 - 52) / 2) ≤ 10 ^ 17 + 8 := by
    have hn : (n : ℚ) ≤ 10 ^ 17 := by exact_mod_cast hhigh
    have hunit : (2 : ℚ) ^ (n.log2 - 52) ≤ 2 ^ 4 := pow_le_pow_right₀ (by norm_num) (by omega)
    norm_num at hunit ⊢
    linarith
  have hpower : (10 : ℚ) ^ e * (1 + 1 / 2 ^ 53) ≤ 10 ^ 291 * (3 / 2) := by
    have hten : (10 : ℚ) ^ e ≤ 10 ^ 291 := pow_le_pow_right₀ (by norm_num) he
    exact mul_le_mul hten (by norm_num) (by norm_num) (by positivity)
  refine ((Double.atMost_toFloat hlog hfits).mono hround).isInf_mul
    ((Double.atMost_powerOfTen (by omega)).mono hpower) ?_
  have hnat : (5 * 10 ^ 16 + 4) * 10 ^ 291 * 3 < (2 ^ 54 - 1) * 2 ^ 970 := by decide +kernel
  refine lt_of_eq_of_lt ?_ (Double.lt_of_lt_overflow hnat)
  rw [Nat.cast_mul, Nat.cast_mul, Nat.cast_pow, Nat.cast_ofNat]
  generalize (10 : ℚ) ^ 291 = power
  push_cast
  ring

/-- Next to the largest double the rounding of the one power of ten that can occur is known. -/
theorem isInf_mul_powerOfTen_largest (hlow : 2 ^ 53 ≤ n)
    (h : n * 10 ^ 292 ≤ (2 ^ 54 - 3) * 2 ^ 970) : (n.toUInt64.toFloat * powerOfTen 292).isInf = false := by
  have hhigh : n ≤ 17976931348623156 := by
    by_contra hgt
    have hbig : (2 ^ 54 - 3) * 2 ^ 970 < 17976931348623157 * 10 ^ 292 := by decide +kernel
    exact absurd ((Nat.mul_le_mul_right _ (show 17976931348623157 ≤ n by omega)).trans h) (Nat.not_le.2 hbig)
  have hlog : n.log2 = 52 + 1 :=
    (Nat.log2_eq_iff (by omega)).2 ⟨hlow, by omega⟩
  have hround : (n : ℚ) + 2 ^ 1 / 2 ≤ (17976931348623157 : Nat) := by
    have hn : (n : ℚ) ≤ 17976931348623156 := by exact_mod_cast hhigh
    norm_num
    linarith
  have hpower : Double.isAtMost (powerOfTen 292) (4512985939662074 * 2 ^ 918) = true := by decide +kernel
  refine ((Double.atMost_toFloat hlog (hhigh.trans_lt (by decide))).mono hround).isInf_mul
    (Double.atMost_of_isAtMost hpower) ?_
  rw [← Nat.cast_mul]
  exact Double.lt_of_lt_overflow (by decide +kernel)

/-- A significand times a power of ten is a finite double, if the number that they denote is below the
    largest double by three half units, and the significand has seventeen digits. -/
theorem exists_scaled?_eq (hpos : 0 < n) (hn : n ≤ 10 ^ 17)
    (h : n * 10 ^ e ≤ (2 ^ 54 - 3) * 2 ^ 970) : ∃ y, scaled? n e = some y := by
  have hbound : ∀ m k, m ≤ n → (2 ^ 54 - 3) * 2 ^ 970 < m * 10 ^ k → e < k := by
    intro m k hm hk
    by_contra hgt
    have hten : 10 ^ k ≤ 10 ^ e := Nat.pow_le_pow_right (by decide) (Nat.not_lt.1 hgt)
    exact absurd ((Nat.mul_le_mul hm hten).trans h) (Nat.not_le.2 hk)
  have he : e < 309 := hbound 1 309 hpos (by decide +kernel)
  suffices hfinite : (n.toUInt64.toFloat * powerOfTen e).isInf = false by
    refine ⟨n.toUInt64.toFloat * powerOfTen e, ?_⟩
    have hnat : ¬ (e : Int) < 0 := by omega
    have hle : (e : Int) ≤ 308 := by omega
    simp only [scaled?, if_neg hnat, if_pos hle, Int.natAbs_natCast, hfinite, Bool.false_eq_true, if_false]
  by_cases hexact : n < 2 ^ 53
  · exact isInf_mul_powerOfTen_of_lt hpos (by omega) hexact h
  by_cases hsmall : e ≤ 291
  · exact isInf_mul_powerOfTen hsmall (by omega) hn
  · have he : e < 293 := hbound (2 ^ 53) 293 (Nat.not_lt.1 hexact) (by decide +kernel)
    obtain rfl : e = 292 := by omega
    exact isInf_mul_powerOfTen_largest (by omega) h

theorem exists_scaled?_of_neg (n : Nat) {exponent : Int} (h : exponent < 0) :
    ∃ y, scaled? n exponent = some y :=
  ⟨dividedBy n.toUInt64.toFloat exponent.natAbs, by rw [scaled?, if_pos h]⟩

end

/-- The shortest digits of a double are read as a finite double. The largest one is close to what would
    exceed the doubles, so it is read by computation. -/
theorem exists_scaled?_parts (negative : Bool) {bits : UInt64} (h : Interval.IsPositive bits) :
    ∃ y, scaled? ((Digits.shortest bits).parts negative).significand
      ((Digits.shortest bits).parts negative).power = some y := by
  have hproper := Digits.isProper_shortest h
  have hsize := Digits.size_parts negative hproper.ne_nil
  have hle := Digits.significand_parts_le negative hproper (Digits.digitsValue_shortest_le h)
  have hnear := Digits.near_shortest h
  by_cases hlargest : bits = 0x7FEFFFFFFFFFFFFF
  · have hread : ∀ negative, (scaled? ((Digits.shortest 0x7FEFFFFFFFFFFFFF).parts negative).significand
        ((Digits.shortest 0x7FEFFFFFFFFFFFFF).parts negative).power).isSome = true := by decide +kernel
    rw [hlargest]
    exact Option.isSome_iff_exists.1 (hread negative)
  by_cases hneg : ((Digits.shortest bits).parts negative).power < 0
  · exact exists_scaled?_of_neg _ hneg
  obtain ⟨e, he⟩ := Int.eq_ofNat_of_zero_le (Int.not_lt.1 hneg)
  rw [← hsize, NumberParts.size, he] at hnear
  rw [he]
  have hbelow : bits.toNat < 0x7FEFFFFFFFFFFFFF := by
    have hlt := h.2
    have hne : bits.toNat ≠ 0x7FEFFFFFFFFFFFFF := fun heq => hlargest (UInt64.toNat_inj.1 heq)
    omega
  have hbound := hnear.le_top.trans (Double.top_le_bottom hbelow)
  have hpos := hnear.pos h.1
  rw [Double.bottom_largest, ← Double.cast_mul_halfUnit, zpow_natCast] at hbound
  rw [zpow_natCast] at hpos
  refine exists_scaled?_eq (Nat.pos_of_ne_zero ?_) hle (by exact_mod_cast hbound)
  intro hzero
  rw [hzero] at hpos
  simp at hpos

/-! ## Doubles in their parts -/

/-- The bits of a double without its sign. -/
def magnitude (x : Float) : UInt64 :=
  x.toBits &&& 0x7FFFFFFFFFFFFFFF

/-- The parts that a double is written in. -/
def floatParts (x : Float) : NumberParts :=
  let negative := decide (x.toBits ≠ magnitude x)
  if magnitude x = 0 then ⟨negative, ['0'], some ['0'], none⟩
  else (Digits.shortest (magnitude x)).parts negative

theorem text_floatParts {x : Float} (hx : x.isFinite = true) : (floatParts x).text = floatText x := by
  have htext : floatText x = (if x.toBits = magnitude x then []  else ['-']) ++
      (if magnitude x = 0 then "0.0".toList else digitsText (Digits.shortest (magnitude x))) := by
    rw [floatText, if_pos hx]
    dsimp only
    rw [← magnitude]
    split <;> rfl
  rw [htext, floatParts]
  by_cases hzero : magnitude x = 0
  · rw [if_pos hzero, if_pos hzero]
    by_cases hsign : x.toBits = magnitude x
    · simp [hsign, NumberParts.text, NumberParts.fractionText, NumberParts.exponentText]
    · simp [hsign, NumberParts.text, NumberParts.fractionText, NumberParts.exponentText]
  · rw [if_neg hzero, if_neg hzero, Digits.text_parts]
    by_cases hsign : x.toBits = magnitude x <;> simp [hsign]

theorem toNat_magnitude (x : Float) : (magnitude x).toNat = x.toBits.toNat % 2 ^ 63 := by
  rw [magnitude, UInt64.toNat_and]
  exact Nat.and_two_pow_sub_one_eq_mod _ 63

open Float.Model Float.Model.UnpackedFloat in
/-- The exponent field of a finite double is not full. -/
theorem magnitude_lt {x : Float} (hx : x.isFinite = true) : (magnitude x).toNat < 0x7FF0000000000000 := by
  by_contra hlarge
  rw [toNat_magnitude] at hlarge
  have hfield : @unpackExponent Format.binary64 x.toBits.toBitVec = -1#11 := by
    apply BitVec.eq_of_toNat_eq
    have hnat : (@unpackExponent Format.binary64 x.toBits.toBitVec).toNat =
        x.toBits.toNat / 2 ^ 52 % 2 ^ 11 := by
      rw [unpackExponent, BitVec.toNat_cast, BitVec.extractLsb_toNat, Nat.shiftRight_eq_div_pow]
      rfl
    rw [hnat]
    change x.toBits.toNat / 2 ^ 52 % 2 ^ 11 = 2047
    omega
  have hunpack : x.isFinite = false := by
    change (unpack Format.binary64 x.toBits.toBitVec).isFinite = false
    delta UnpackedFloat.unpack
    dsimp only
    rw [if_pos hfield]
    split <;> rfl
  rw [hunpack] at hx
  cases hx

theorem isPositive_magnitude {x : Float} (hx : x.isFinite = true) (h : magnitude x ≠ 0) :
    Interval.IsPositive (magnitude x) :=
  ⟨Nat.pos_of_ne_zero fun hzero => h (UInt64.toNat_inj.1 hzero), magnitude_lt hx⟩

/-- A double is its sign and its magnitude. -/
theorem float_ext {x y : Float} (hsign : x.toBits = magnitude x ↔ y.toBits = magnitude y)
    (h : magnitude x = magnitude y) : x = y := by
  have hbits : x.toBits = y.toBits := by
    rw [← UInt64.toNat_inj] at hsign h ⊢
    rw [← UInt64.toNat_inj, toNat_magnitude, toNat_magnitude] at hsign
    rw [toNat_magnitude, toNat_magnitude] at h
    have hx := x.toBits.toNat_lt
    have hy := y.toBits.toNat_lt
    omega
  obtain ⟨⟨bits, _⟩⟩ := x
  obtain ⟨⟨bits', _⟩⟩ := y
  obtain rfl : bits = bits' := hbits
  rfl

/-! ## What the text of a double determines -/

theorem isWritten_floatParts {x : Float} (hx : x.isFinite = true) : (floatParts x).IsWritten := by
  unfold floatParts
  dsimp only
  split
  · refine ⟨by simp, by simp, fun _ => rfl, ?_⟩
    rintro digits ⟨⟩
    exact ⟨by simp, List.forall_mem_singleton.2 rfl⟩
  · next h => exact Digits.isWritten_parts _ (Digits.isProper_shortest (isPositive_magnitude hx h))

theorem hasTail_floatParts (x : Float) : (floatParts x).HasTail := by
  unfold floatParts
  dsimp only
  split
  · exact .inl rfl
  · exact Digits.hasTail_parts _ _

theorem negative_floatParts (x : Float) : (floatParts x).negative = decide (x.toBits ≠ magnitude x) := by
  unfold floatParts
  dsimp only
  split
  · rfl
  · exact Digits.negative_parts _ _

/-- The parts of a double denote zero or a number that is near its magnitude. -/
theorem size_floatParts {x : Float} (hx : x.isFinite = true) :
    (magnitude x = 0 ∧ (floatParts x).size = 0) ∨
      (0 < (magnitude x).toNat ∧ Double.Near (magnitude x).toNat (floatParts x).size) := by
  unfold floatParts
  dsimp only
  split
  · next h => exact .inl ⟨h, by simp [NumberParts.size, NumberParts.significand, Text.digitsValue, Nat.ofDigitChars]⟩
  · next h =>
    have hpositive := isPositive_magnitude hx h
    rw [Digits.size_parts _ (Digits.isProper_shortest hpositive).ne_nil]
    exact .inr ⟨hpositive.1, Digits.near_shortest hpositive⟩

/-- The text of a finite double is read as a double. -/
theorem exists_value?_floatParts {x : Float} (hx : x.isFinite = true) :
    ∃ y, (floatParts x).value? = some (float y) := by
  obtain ⟨hfits, hexponent, y, hy⟩ : (floatParts x).significand < UInt64.size ∧
      ((floatParts x).exponent.getD 0).natAbs < 0x80000000 ∧
      ∃ y, scaled? (floatParts x).significand (floatParts x).power = some y := by
    unfold floatParts
    dsimp only
    split
    · exact ⟨(by decide : Text.digitsValue ['0', '0'] < UInt64.size),
        (by decide : (0 : Int).natAbs < 0x80000000),
        exists_scaled?_of_neg _ (by decide : (0 - (1 : Nat) : Int) < 0)⟩
    · next h =>
      have hpositive := isPositive_magnitude hx h
      have hle := Digits.significand_parts_le (decide (x.toBits ≠ magnitude x))
        (Digits.isProper_shortest hpositive) (Digits.digitsValue_shortest_le hpositive)
      have hexponent := (Digits.natAbs_exponent_parts_le (decide (x.toBits ≠ magnitude x)) _).trans_lt
        (Digits.natAbs_exponent_shortest_lt hpositive)
      exact ⟨hle.trans_lt (by decide), hexponent.trans (by decide), exists_scaled?_parts _ hpositive⟩
  rw [NumberParts.value?_eq (hasTail_floatParts x) hfits hexponent, hy]
  exact ⟨_, rfl⟩

/-- Whether the parts of a number stand for a double: the number has a fraction or an exponent and the
    sign of the double, and it is zero if the double is, or nearer to it than to any other double. -/
structure NumberParts.StandsFor (n : NumberParts) (x : Float) : Prop where
  written : n.IsWritten
  tail : n.HasTail
  sign : n.negative = true ↔ x.toBits ≠ magnitude x
  size : (magnitude x = 0 ∧ n.size = 0) ∨
    (0 < (magnitude x).toNat ∧ Double.Near (magnitude x).toNat n.size)

theorem standsFor_floatParts {x : Float} (hx : x.isFinite = true) : (floatParts x).StandsFor x :=
  ⟨isWritten_floatParts hx, hasTail_floatParts x, by rw [negative_floatParts, decide_eq_true_iff],
    size_floatParts hx⟩

/-- Parts stand for one double only. -/
theorem NumberParts.StandsFor.eq {n : NumberParts} {x y : Float} (hx : n.StandsFor x)
    (hy : n.StandsFor y) : x = y := by
  refine float_ext (not_iff_not.1 (hx.sign.symm.trans hy.sign)) ?_
  obtain ⟨hx₀, hzero⟩ | ⟨hpos, hnear⟩ := hx.size
  · obtain ⟨hy₀, -⟩ | ⟨hpos, hnear⟩ := hy.size
    · rw [hx₀, hy₀]
    · exact absurd hzero (hnear.pos hpos).ne'
  · obtain ⟨-, hzero⟩ | ⟨-, hnear'⟩ := hy.size
    · exact absurd hzero (hnear.pos hpos).ne'
    · exact UInt64.toNat_inj.1 (hnear.eq hnear')

theorem floatParts_inj {x y : Float} (hx : x.isFinite = true) (hy : y.isFinite = true)
    (h : floatParts x = floatParts y) : x = y :=
  (standsFor_floatParts hx).eq (h ▸ standsFor_floatParts hy)

/-- A finite double is read back as what its parts are read as. -/
theorem readNumber?_floatText {x : Float} (hx : x.isFinite = true) {rest : Text} (h : EndsNumber rest) :
    readNumber? (floatText x ++ rest) = some ((floatParts x).value?.getD null, rest) := by
  obtain ⟨y, hy⟩ := exists_value?_floatParts hx
  rw [readNumber?_eq, ← text_floatParts hx, readParts?_text (isWritten_floatParts hx) h,
    Option.bind_some]
  simp only [hy, Option.map_some, Option.getD_some]

end Json

end EntityQuery
